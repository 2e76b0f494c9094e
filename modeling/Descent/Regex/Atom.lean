import Descent.Regex.Flags

namespace Descent.Regex

-- The smallest part of a pattern.
inductive Atom where
  -- a character; `byte` if it was written as two hexadecimal digits
  | literal (c : Char) (byte : Bool)
  -- one of the classes of digits, blanks and word characters, with its ASCII meaning
  | shorthand (negated : Bool) (wide ascii : CharClass)
  | property (negated : Bool) (chars : CharClass)
  | assertion (kind : Assertion)

namespace Atom

def isHexDigit (c : Char) : Bool :=
  c.isDigit || ('a' ≤ c && c ≤ 'f') || ('A' ≤ c && c ≤ 'F')

def hexValue (c : Char) : Nat :=
  if c.isDigit then c.toNat - 48 else if c ≤ 'F' then c.toNat - 55 else c.toNat - 87

-- The character of a code point written in hexadecimal digits. There is none for no digits, for a
-- surrogate and beyond the last code point.
def ofHex? (digits : List Char) : Option Char :=
  let code := digits.foldl (fun n c => 16 * n + hexValue c) 0
  if digits.isEmpty || !digits.all isHexDigit then none
  else if code.isValidChar then some (Char.ofNat code)
  else none

-- Reads as many hexadecimal digits as asked for. Blanks between them are skipped if the flags say
-- so.
def readDigits? (flags : Flags) : Nat → List Char → Option (List Char × List Char)
  | 0, text => some ([], text)
  | _ + 1, [] => none
  | n + 1, c :: rest =>
    match readDigits? flags n (flags.skip rest) with
    | some (digits, rest) => some (c :: digits, rest)
    | none => none

-- Reads up to a closing brace and drops it. Blanks are skipped if the flags say so.
def readBraced? (flags : Flags) : Nat → List Char → Option (List Char × List Char)
  | 0, _ => none
  | fuel + 1, text =>
    match flags.skip text with
    | [] => none
    | '}' :: rest => some ([], rest)
    | c :: rest =>
      match readBraced? flags fuel rest with
      | some (inside, rest) => some (c :: inside, rest)
      | none => none

-- Reads the code of a character behind `\x`, `\u` or `\U`: that many digits, or any number of
-- them in braces.
def readHex? (flags : Flags) (count : Nat) (text : List Char) : Option (Atom × List Char) :=
  match flags.skip text with
  | '{' :: rest =>
    match readBraced? flags (rest.length + 1) rest with
    | some (digits, rest) => (ofHex? digits).map fun c => (literal c false, flags.skip rest)
    | none => none
  | text =>
    match readDigits? flags count text with
    | some (digits, rest) => (ofHex? digits).map fun c => (literal c (count = 2), rest)
    | none => none

-- Splits a text at the first occurrence of a separator.
def splitAt? (separator : List Char) : List Char → Option (List Char × List Char)
  | [] => none
  | c :: rest =>
    match separator.isPrefixOf? (c :: rest) with
    | some behind => some ([], behind)
    | none => (splitAt? separator rest).map fun (before, behind) => (c :: before, behind)

-- A property by its description: a name, or a name and a value it has or does not have.
def property? (negated : Bool) (description : List Char) : Option Atom :=
  let ofValue (negated : Bool) (parts : List Char × List Char) :=
    (CharClass.ofPropertyValue? (CharClass.normalName parts.1)
      (CharClass.normalName parts.2)).map (property negated)
  match splitAt? ['!', '='] description with
  | some parts => ofValue (!negated) parts
  | none =>
    match splitAt? [':'] description with
    | some parts => ofValue negated parts
    | none =>
      match splitAt? ['='] description with
      | some parts => ofValue negated parts
      | none => (CharClass.ofProperty? (CharClass.normalName description)).map (property negated)

def readProperty? (flags : Flags) (negated : Bool) (text : List Char) :
    Option (Atom × List Char) :=
  if !flags.unicode then none
  else
    match flags.skip text with
    | [] | '\\' :: _ => none
    | '{' :: rest =>
      match readBraced? flags (rest.length + 1) rest with
      | some (description, rest) => (property? negated description).map fun atom => (atom, rest)
      | none => none
    | c :: rest => (property? negated [c]).map fun atom => (atom, flags.skip rest)

-- The name in braces behind `\b`, if there is one. Anything but a letter or a hyphen behind the
-- opening brace leaves the brace to a repetition.
def readBoundary? (flags : Flags) (text : List Char) : Option (Atom × List Char) :=
  let plain := some (assertion (.wordBoundary (!flags.unicode) false), text)
  match text with
  | '{' :: rest =>
    match flags.skip rest with
    | [] => none
    | c :: _ =>
      if !(c.isAlpha || c = '-') then plain
      else
        match readBraced? flags (rest.length + 1) rest with
        | none => none
        | some (name, rest) =>
          match String.ofList name with
          | "start" => some (assertion (.wordStart (!flags.unicode)), rest)
          | "end" => some (assertion (.wordEnd (!flags.unicode)), rest)
          | "start-half" => some (assertion (.noWordBefore (!flags.unicode)), rest)
          | "end-half" => some (assertion (.noWordAfter (!flags.unicode)), rest)
          | _ => none
  | _ => plain

-- Reads what follows a backslash. Letters and digits without a meaning of their own are refused,
-- so that they can be given one; every other ASCII character stands for itself.
def readEscape? (flags : Flags) : List Char → Option (Atom × List Char)
  | [] => none
  | c :: rest =>
    match c with
    | 'x' => readHex? flags 2 rest
    | 'u' => readHex? flags 4 rest
    | 'U' => readHex? flags 8 rest
    | 'p' => readProperty? flags false rest
    | 'P' => readProperty? flags true rest
    | 'd' => some (shorthand false .digit .asciiDigit, rest)
    | 'D' => some (shorthand true .digit .asciiDigit, rest)
    | 's' => some (shorthand false .blank .asciiBlank, rest)
    | 'S' => some (shorthand true .blank .asciiBlank, rest)
    | 'w' => some (shorthand false .word .asciiWord, rest)
    | 'W' => some (shorthand true .word .asciiWord, rest)
    | 'a' => some (literal '\x07' false, rest)
    | 'f' => some (literal '\x0c' false, rest)
    | 't' => some (literal '\t' false, rest)
    | 'n' => some (literal '\n' false, rest)
    | 'r' => some (literal '\r' false, rest)
    | 'v' => some (literal '\x0b' false, rest)
    | 'A' => some (assertion .textStart, rest)
    | 'z' => some (assertion .textEnd, rest)
    | 'b' => readBoundary? flags rest
    | 'B' => some (assertion (.wordBoundary (!flags.unicode) true), rest)
    | '<' => some (assertion (.wordStart (!flags.unicode)), rest)
    | '>' => some (assertion (.wordEnd (!flags.unicode)), rest)
    | c =>
      if c.isAlphanum || '\x7f' < c then none else some (literal c false, rest)

-- The character of a literal. Without Unicode a byte beyond ASCII is no character.
def char? (flags : Flags) (c : Char) (byte : Bool) : Option Char :=
  if !flags.unicode && byte && '\x7f' < c then none else some c

-- The same as a member of a set, where without Unicode every character has to be of ASCII.
def member? (flags : Flags) (c : Char) : Option Char :=
  if !flags.unicode && '\x7f' < c then none else some c

-- An atom that stands on its own in a pattern.
def toExpr? (flags : Flags) : Atom → Option Expr
  | literal c byte =>
    match char? flags c byte with
    | none => none
    | some c =>
      if !flags.ignoreCase then some (.one (.char c))
      else if !flags.unicode && '\x7f' < c then none
      else (flags.close? false (.char c)).map .one
  | shorthand negated wide ascii => (flags.shorthand? negated wide ascii).map .one
  | property negated chars => (flags.close? negated chars).map .one
  | assertion kind => some (.look kind)

-- An atom as a part of a set. Assertions are no characters.
def toClass? (flags : Flags) : Atom → Option CharClass
  | literal c _ => (member? flags c).map .char
  | shorthand negated wide ascii => flags.shorthand? negated wide ascii
  | property negated chars => flags.close? negated chars
  | assertion _ => none

-- An atom as an end of a range of characters.
def toBound? (flags : Flags) : Atom → Option Char
  | literal c _ => member? flags c
  | _ => none

end Atom

end Descent.Regex
