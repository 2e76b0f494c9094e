import Descent.Regex.Expr

namespace Descent.Regex

-- The switches that a pattern can turn while it is read.
structure Flags where
  ignoreCase : Bool := false
  multiLine : Bool := false
  dotAll : Bool := false
  -- repetitions are lazy unless they are marked
  lazy : Bool := false
  returnEndsLine : Bool := false
  unicode : Bool := true
  -- blanks and comments between the parts of the pattern are skipped
  spaced : Bool := false

namespace Flags

-- Turns the switch of a letter.
def set? (flags : Flags) (letter : Char) (on : Bool) : Option Flags :=
  match letter with
  | 'i' => some { flags with ignoreCase := on }
  | 'm' => some { flags with multiLine := on }
  | 's' => some { flags with dotAll := on }
  | 'R' => some { flags with returnEndsLine := on }
  | 'u' => some { flags with unicode := on }
  | 'x' => some { flags with spaced := on }
  | 'U' => some { flags with lazy := on }
  | _ => none

-- Reads letters up to a closing character, which is returned. Letters behind a hyphen are turned
-- off. No letter comes twice, there is one hyphen at most, and a letter follows it.
def read? (flags : Flags) (seen : List Char) :
    List Char → Option (Flags × Bool × Char × List Char)
  | [] => none
  | c :: rest =>
    if c = ':' || c = ')' then
      if seen.head? = some '-' then none else some (flags, seen.isEmpty, c, rest)
    else if seen.contains c then none
    else if c = '-' then read? flags (c :: seen) rest
    else
      match flags.set? c (!seen.contains '-') with
      | some changed => read? changed (c :: seen) rest
      | none => none

-- Drops blanks, and comments that run from a hash to the end of the line.
def dropBlanks (inComment : Bool) : List Char → List Char
  | [] => []
  | c :: rest =>
    if inComment then dropBlanks (c ≠ '\n') rest
    else if Text.isBlank c then dropBlanks false rest
    else if c = '#' then dropBlanks true rest
    else c :: rest

def skip (flags : Flags) (text : List Char) : List Char :=
  if flags.spaced then dropBlanks false text else text

-- A set with the case variants that the flags ask for, or what is outside of it. Without Unicode
-- a set holds ASCII characters only, so there is nothing outside of it.
def close? (flags : Flags) (negated : Bool) (chars : CharClass) : Option CharClass :=
  if flags.unicode then
    let closed := if flags.ignoreCase then .variants chars else chars
    some (if negated then .complement closed else closed)
  else if negated then none
  else some (if flags.ignoreCase then .asciiVariants chars else chars)

-- A set of ASCII characters by its Unicode and its ASCII meaning.
def shorthand? (flags : Flags) (negated : Bool) (wide ascii : CharClass) : Option CharClass :=
  if flags.unicode then some (if negated then .complement wide else wide)
  else if negated then none
  else some ascii

def dot? (flags : Flags) : Option CharClass :=
  if !flags.unicode then none
  else if flags.dotAll then some (.complement .none)
  else if flags.returnEndsLine then some (.complement (.union (.char '\r') (.char '\n')))
  else some (.complement (.char '\n'))

def lineStart (flags : Flags) : Assertion :=
  if !flags.multiLine then .textStart
  else if flags.returnEndsLine then .returnLineStart
  else .lineStart

def lineEnd (flags : Flags) : Assertion :=
  if !flags.multiLine then .textEnd
  else if flags.returnEndsLine then .returnLineEnd
  else .lineEnd

end Flags

end Descent.Regex
