import Descent.Regex.Atom

namespace Descent.Regex

-- A set that has been read, and how deep it nests.
structure ReadClass where
  chars : CharClass
  depth : Nat

namespace ReadClass

-- What stands next to each other in a bracket belongs to the set.
def unionAll : List ReadClass → ReadClass
  | [] => ⟨.none, 0⟩
  | [item] => item
  | items => ⟨.unionAll (items.map (·.chars)), (items.map (·.depth)).foldl max 0 + 1⟩

end ReadClass

inductive SetOperator where
  | intersection
  | difference
  | symmetricDifference

namespace SetOperator

-- The operands take in case variants before they are combined.
def combine? (operator : SetOperator) (flags : Flags) (left right : ReadClass) : Option ReadClass :=
  match flags.close? false left.chars, flags.close? false right.chars with
  | some a, some b =>
    let chars := match operator with
      | intersection => .intersection a b
      | difference => .difference a b
      | symmetricDifference => .symmetricDifference a b
    some ⟨chars, max left.depth right.depth + 1⟩
  | _, _ => none

end SetOperator

namespace Bracket

-- Reads `[:name:]` behind its first bracket.
def readNamed? (flags : Flags) (text : List Char) : Option (Option CharClass × List Char) :=
  match text with
  | ':' :: rest =>
    let (negated, rest) := match rest with
      | '^' :: rest => (true, rest)
      | _ => (false, rest)
    match rest.dropWhile (· ≠ ':') with
    | ':' :: ']' :: behind =>
      (CharClass.named? (String.ofList (rest.takeWhile (· ≠ ':')))).map fun chars =>
        (flags.close? negated chars, behind)
    | _ => none
  | _ => none

-- Hyphens at the start of a bracket are members.
def readHyphens (flags : Flags) : Nat → List Char → List ReadClass × List Char
  | 0, text => ([], text)
  | fuel + 1, text =>
    match text with
    | '-' :: rest =>
      let (hyphens, rest) := readHyphens flags fuel (flags.skip rest)
      (⟨.char '-', 0⟩ :: hyphens, rest)
    | _ => ([], text)

-- What opens a bracket: a circumflex that negates it, hyphens, and a closing bracket that is a
-- member because the set would be empty without it.
def readOpening (flags : Flags) (text : List Char) : Bool × List ReadClass × List Char :=
  let (negated, text) := match flags.skip text with
    | '^' :: rest => (true, flags.skip rest)
    | text => (false, text)
  let (hyphens, text) := readHyphens flags text.length text
  match hyphens, text with
  | [], ']' :: rest => (negated, [⟨.char ']', 0⟩], flags.skip rest)
  | _, _ => (negated, hyphens, text)

def readAtom? (flags : Flags) : List Char → Option (Atom × List Char)
  | [] => none
  | '\\' :: rest => Atom.readEscape? flags rest
  | c :: rest => some (.literal c false, rest)

-- Reads a member or a range of members. A hyphen before the closing bracket is a member, and two
-- hyphens are an operator.
def readRange? (flags : Flags) (text : List Char) : Option (ReadClass × List Char) :=
  match readAtom? flags text with
  | none => none
  | some (first, text) =>
    let single := (first.toClass? flags).map fun chars => ((⟨chars, 0⟩ : ReadClass), text)
    match flags.skip text with
    | [] => none
    | '-' :: rest =>
      match flags.skip rest with
      | [] => none
      | ']' :: _ | '-' :: _ => single
      | text =>
        match readAtom? flags text with
        | none => none
        | some (last, text) =>
          match first.toBound? flags, last.toBound? flags with
          | some a, some b => if a ≤ b then some (⟨.range a b, 0⟩, text) else none
          | _, _ => none
    | _ => single

-- An operator and the set on its left, if one is waiting for the set on its right.
abbrev Waiting := Option (SetOperator × ReadClass)

def settle? (flags : Flags) (waiting : Waiting) (right : ReadClass) : Option ReadClass :=
  match waiting with
  | none => some right
  | some (operator, left) => operator.combine? flags left right

mutual

-- Reads a set behind its opening bracket.
def read? (flags : Flags) : Nat → List Char → Option (ReadClass × List Char)
  | 0, _ => none
  | fuel + 1, text =>
    let (negated, items, text) := readOpening flags text
    match readItems? flags fuel items none text with
    | none => none
    | some (inside, text) =>
      (flags.close? negated inside.chars).map fun chars => (⟨chars, inside.depth + 1⟩, text)

-- Reads on to the closing bracket; the latest item comes first. Operators bind to the left.
def readItems? (flags : Flags) :
    Nat → List ReadClass → Waiting → List Char → Option (ReadClass × List Char)
  | 0, _, _, _ => none
  | fuel + 1, items, waiting, text =>
    let operate (operator : SetOperator) (rest : List Char) :=
      match settle? flags waiting (.unionAll items.reverse) with
      | some left => readItems? flags fuel [] (some (operator, left)) rest
      | none => none
    match flags.skip text with
    | [] => none
    | ']' :: rest => (settle? flags waiting (.unionAll items.reverse)).map fun all => (all, rest)
    | '&' :: '&' :: rest => operate .intersection rest
    | '-' :: '-' :: rest => operate .difference rest
    | '~' :: '~' :: rest => operate .symmetricDifference rest
    | '[' :: rest =>
      match readNamed? flags rest with
      | some (some chars, rest) => readItems? flags fuel (⟨chars, 0⟩ :: items) waiting rest
      | some (none, _) => none
      | none =>
        match read? flags fuel rest with
        | some (inner, rest) => readItems? flags fuel (inner :: items) waiting rest
        | none => none
    | text =>
      match readRange? flags text with
      | some (item, rest) => readItems? flags fuel (item :: items) waiting rest
      | none => none

end

end Bracket

end Descent.Regex
