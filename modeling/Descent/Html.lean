import Descent.Answer

-- Nested tags with quoted attributes and text between them.
namespace Descent.Html

-- What stands in the body of a tag.
inductive Element where
  | text (content : String)
  | tag (name : String) (attributes : List (String × String)) (body : List Element)

structure Tag where
  name : String
  attributes : List (String × String)
  body : List Element

abbrev Markup := Grammar Tag

def letter : Regex.CharClass := .unionAll [.range 'a' 'z', .range 'A' 'Z']

def letterOrDigit : Regex.CharClass :=
  .unionAll [.range 'a' 'z', .range 'A' 'Z', .range '0' '9']

def letterDigitOrHyphen : Regex.CharClass :=
  .unionAll [.range 'a' 'z', .range 'A' 'Z', .range '0' '9', .char '-']

-- The names of tags: a letter, then letters and digits.
def tagName : Regex :=
  ⟨"[a-zA-Z][a-zA-Z0-9]*", .seq (.one letter) (.rep (.one letterOrDigit) 0 none false)⟩

-- The names of attributes may have hyphens, too.
def attributeName : Regex :=
  ⟨"[a-zA-Z][a-zA-Z0-9-]*", .seq (.one letter) (.rep (.one letterDigitOrHyphen) 0 none false)⟩

def textOf (node : Node Tag) : Node Tag := .value (.str node.flatten)

def listOf (node : Node Tag) : Node Tag :=
  .value (.list (node.toChildren.filterMap Node.value?))

-- A name, an equals sign and a value. Of two attributes with the same name the later one counts.
def attributesOf (node : Node Tag) : Node Tag :=
  .value (.ofEntries (node.toChildren.filterMap fun part =>
    match (part.child 0).token?, (part.child 2).value?.bind Value.str? with
    | some name, some text => some (name, .str text)
    | _, _ => none))

def toElement? : Value Tag → Option Element
  | .str content => some (.text content)
  | .custom tag => some (.tag tag.name tag.attributes tag.body)
  | _ => none

-- The name and the attributes stand in the opening part, the body behind it.
def tagOf (node : Node Tag) : Node Tag :=
  let opening := node.child 0
  let attributes := ((opening.child 3).value?.bind Value.entries?).getD []
  let body := ((node.child 2).value?.bind Value.items?).getD []
  .value (.custom
    ⟨(opening.child 1).token?.getD "",
      attributes.filterMap fun (name, value) => value.str?.map fun text => (name, text),
      body.filterMap toElement?⟩)

def elements : Markup :=
  .map listOf (.many (.any [.map textOf (.notChars "<>"), .rule "tag"]) none 0)

def attributes : Markup :=
  .map attributesOf
    (.many (.seq [.scan (.regex attributeName), .exact "=", .quoted "\"'"]) none 0)

-- The cut behind the name makes a damaged tag an error where the damage is.
def opening : Markup :=
  .seq [.exact "<", .scan (.regex tagName), .cut, attributes, .exact ">"]

-- The name is not compared with that of the opening part.
def closing : Markup := .seq [.exact "</", .cut, .scan (.regex tagName), .exact ">"]

def tag : Markup := .map tagOf (.seq [opening, .cut, elements, closing])

def rules : Rules Tag := ⟨[("tag", tag)]⟩

def parse (input : String) : Except ParseError Tag :=
  match Grammar.parseAll rules (.rule "tag") input.toList with
  | .error error => .error error
  | .ok node =>
    match node.value?.bind Value.payload? with
    | some tag => .ok tag
    | none => .error (.unmatched ⟨0, "tag"⟩)

end Descent.Html
