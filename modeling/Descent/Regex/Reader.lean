import Descent.Regex.Bracket

namespace Descent.Regex

-- A part of a pattern that has been read: what it matches, how deep it nests, and whether a
-- repetition may follow it.
structure Piece where
  expr : Expr
  depth : Nat
  repeatable : Bool := true

namespace Piece

def seqAll : List Piece → Piece
  | [] => ⟨.empty, 0, true⟩
  | [piece] => piece
  | pieces => ⟨.seqAll (pieces.map (·.expr)), (pieces.map (·.depth)).foldl max 0 + 1, true⟩

def altAll : List Piece → Piece
  | [] => ⟨.empty, 0, true⟩
  | [piece] => piece
  | pieces => ⟨.altAll (pieces.map (·.expr)), (pieces.map (·.depth)).foldl max 0 + 1, true⟩

-- Repeats the latest of some pieces.
def repeatLatest? (least : Nat) (most : Option Nat) (lazy : Bool) :
    List Piece → Option (List Piece)
  | ⟨expr, depth, true⟩ :: earlier =>
    some (⟨.rep expr least most lazy, depth + 1, true⟩ :: earlier)
  | _ => none

end Piece

namespace Reader

-- Reads a count with blanks around it. A count has 32 bits.
def readCount? (flags : Flags) (text : List Char) : Option (Nat × List Char) :=
  let rec digits : Nat → List Char → List Char × List Char
    | 0, text => ([], text)
    | fuel + 1, text =>
      match text with
      | c :: rest =>
        if c.isDigit then
          let (more, rest) := digits fuel (flags.skip rest)
          (c :: more, rest)
        else ([], text)
      | [] => ([], text)
  let text := text.dropWhile Text.isBlank
  let (written, rest) := digits text.length text
  let count := written.foldl (fun n d => 10 * n + (d.toNat - 48)) 0
  if written.isEmpty || Nat.pow 2 32 ≤ count then none
  else some (count, flags.skip (rest.dropWhile Text.isBlank))

-- Reads the counts of a repetition behind its opening brace: one count, a least one, or both.
def readCounts? (flags : Flags) (text : List Char) : Option (Nat × Option Nat × List Char) :=
  match readCount? flags (flags.skip text) with
  | none => none
  | some (least, text) =>
    match text with
    | '}' :: rest => some (least, some least, rest)
    | ',' :: rest =>
      match flags.skip rest with
      | '}' :: rest => some (least, none, rest)
      | text =>
        match readCount? flags text with
        | some (most, '}' :: rest) => if least ≤ most then some (least, some most, rest) else none
        | _ => none
    | _ => none

-- A question mark behind a repetition marks it.
def readMark : List Char → Bool × List Char
  | '?' :: rest => (true, rest)
  | text => (false, text)

-- How a group begins.
inductive Opening where
  | group (flags : Flags) (names : List String)
  -- flags for the rest of the group around it
  | directive (flags : Flags)

def isNameStart (c : Char) : Bool := c = '_' || Unicode.isAlphabetic c

def isNameChar (c : Char) : Bool :=
  c = '_' || c = '.' || c = '[' || c = ']' || Unicode.isAlphanumeric c

-- Reads the name of a group up to its closing bracket. No two groups have the same name.
def readName? (names : List String) (text : List Char) : Option (String × List Char) :=
  let name := text.takeWhile (· ≠ '>')
  match name, text.dropWhile (· ≠ '>') with
  | first :: others, _ :: rest =>
    if isNameStart first && others.all isNameChar && !names.contains (String.ofList name) then
      some (String.ofList name, rest)
    else none
  | _, _ => none

-- Reads what follows an opening parenthesis. Patterns that look around are refused.
def readOpening? (flags : Flags) (names : List String) (text : List Char) :
    Option (Opening × List Char) :=
  let named (rest : List Char) := (readName? names rest).map fun (name, rest) =>
    (Opening.group flags (name :: names), rest)
  match flags.skip text with
  | '?' :: '=' :: _ | '?' :: '!' :: _ | '?' :: '<' :: '=' :: _ | '?' :: '<' :: '!' :: _ => none
  | '?' :: 'P' :: '<' :: rest => named rest
  | '?' :: '<' :: rest => named rest
  | '?' :: rest =>
    match flags.read? [] rest with
    | some (_, true, ')', _) => none
    | some (changed, _, ')', rest) => some (.directive changed, rest)
    | some (changed, _, _, rest) => some (.group changed names, rest)
    | none => none
  | text => some (.group flags names, text)

-- The parts of a group that have been read, the latest first: the finished alternatives and the
-- pieces of the one that is being read.
structure Progress where
  alternatives : List Piece := []
  pieces : List Piece := []
  names : List String := []

namespace Progress

def push (progress : Progress) (piece : Piece) : Progress :=
  { progress with pieces := piece :: progress.pieces }

def split (progress : Progress) : Progress :=
  { progress with
    alternatives := .seqAll progress.pieces.reverse :: progress.alternatives, pieces := [] }

def whole (progress : Progress) : Piece := .altAll progress.split.alternatives.reverse

def repeat? (progress : Progress) (least : Nat) (most : Option Nat) (lazy : Bool) :
    Option Progress :=
  (Piece.repeatLatest? least most lazy progress.pieces).map fun pieces =>
    { progress with pieces := pieces }

end Progress

-- Reads a group up to its closing parenthesis or the end of the pattern, and returns it with the
-- names of the groups so far and what follows.
def readGroup? : Nat → Flags → Progress → List Char → Option (Piece × List String × List Char)
  | 0, _, _, _ => none
  | fuel + 1, flags, progress, text =>
    let repeated (least : Nat) (most : Option Nat) (rest : List Char) :=
      let (marked, rest) := readMark rest
      match progress.repeat? least most (marked != flags.lazy) with
      | some progress => readGroup? fuel flags progress rest
      | none => none
    let one (chars : Option CharClass) (rest : List Char) :=
      match chars with
      | some chars => readGroup? fuel flags (progress.push ⟨.one chars, 0, true⟩) rest
      | none => none
    let look (assertion : Assertion) (rest : List Char) :=
      readGroup? fuel flags (progress.push ⟨.look assertion, 0, true⟩) rest
    match flags.skip text with
    | [] => some (progress.whole, progress.names, [])
    | ')' :: rest => some (progress.whole, progress.names, ')' :: rest)
    | '|' :: rest => readGroup? fuel flags progress.split rest
    | '(' :: rest =>
      match readOpening? flags progress.names rest with
      | none => none
      | some (.directive changed, rest) =>
        readGroup? fuel changed (progress.push ⟨.empty, 0, false⟩) rest
      | some (.group inner names, rest) =>
        match readGroup? fuel inner ⟨[], [], names⟩ rest with
        | some (piece, names, ')' :: rest) =>
          readGroup? fuel flags
            { progress with
              pieces := ⟨piece.expr, piece.depth + 1, true⟩ :: progress.pieces, names := names }
            rest
        | _ => none
    | '[' :: rest =>
      match Bracket.read? flags (rest.length + 1) rest with
      | some (set, rest) =>
        readGroup? fuel flags (progress.push ⟨.one set.chars, set.depth, true⟩) rest
      | none => none
    | '?' :: rest => repeated 0 (some 1) rest
    | '*' :: rest => repeated 0 none rest
    | '+' :: rest => repeated 1 none rest
    | '{' :: rest =>
      match readCounts? flags rest with
      | some (least, most, rest) => repeated least most (flags.skip rest)
      | none => none
    | '.' :: rest => one flags.dot? rest
    | '^' :: rest => look flags.lineStart rest
    | '$' :: rest => look flags.lineEnd rest
    | '\\' :: rest =>
      match Atom.readEscape? flags rest with
      | some (atom, rest) =>
        match atom.toExpr? flags with
        | some expr => readGroup? fuel flags (progress.push ⟨expr, 0, true⟩) rest
        | none => none
      | none => none
    | c :: rest =>
      match (Atom.literal c false).toExpr? flags with
      | some expr => readGroup? fuel flags (progress.push ⟨expr, 0, true⟩) rest
      | none => none

-- Patterns nest at most this deep.
def depthLimit : Nat := 250

-- An automaton has at most this many states.
def sizeLimit : Nat := Nat.pow 2 31

-- The expression that a pattern describes, if it is well formed.
def read? (pattern : List Char) : Option Expr :=
  match readGroup? (pattern.length + 1) {} {} pattern with
  | some (piece, _, []) =>
    if piece.depth ≤ depthLimit && piece.expr.size < sizeLimit then some piece.expr else none
  | _ => none

end Reader

end Descent.Regex
