import Descent.Html
import Descent.Proofs.Dialects

-- The texts that are tags, and what they stand for.
namespace Descent.Html

open Grammar (Row)
open Json (Blank Token)
open Scanner

-- A letter, and characters of a class behind it.
inductive IsName (others : Regex.CharClass) : List Char → Prop
  | mk {c rest} : letter.contains c → (∀ d ∈ rest, others.contains d) → IsName others (c :: rest)

-- A character that can stand in a text between tags.
def isPlain (c : Char) : Bool := c != '<' && c != '>'

-- Neither a text between tags nor blanks before a tag can go on like this.
def Bare (text : List Char) : Prop := ∀ c ∈ text.head?, isPlain c = false

-- A text between tags. The blanks before it do not belong to it, those behind it do.
structure IsContent (text : List Char) : Prop where
  plain : ∀ c ∈ text, isPlain c
  head : ∃ c ∈ text.head?, Text.isAsciiBlank c = false

-- A name, an equals sign and a value between quotes of either kind.
inductive Attribute : List Char → String × String → Prop
  | mk {name word equals quote body value literal} :
      IsName letterDigitOrHyphen name → Token name word → Token ['='] equals →
      quote ∈ "\"'".toList → Quoted.Spells quote body value →
      Token (quote :: (body ++ [quote])) literal →
      Attribute (word ++ (equals ++ literal)) (String.ofList name, String.ofList value)

-- No blanks are needed before an attribute, unless it would go on with the name of the tag.
inductive Opening : List Char → String × List (String × String) → Prop
  | mk {opener name word body entries closer} :
      Token ['<'] opener → IsName letterOrDigit name → Token name word →
      Row Attribute body entries → (∀ c ∈ body.head?, letterOrDigit.contains c = false) →
      Token ['>'] closer →
      Opening (opener ++ (word ++ (body ++ closer))) (String.ofList name, entries)

inductive Closing : List Char → String → Prop
  | mk {opener name word closer} :
      Token ['<', '/'] opener → IsName letterOrDigit name → Token name word →
      Token ['>'] closer → Closing (opener ++ (word ++ closer)) (String.ofList name)

section Bodies

-- `Nested text tag` says that the text stands for the tag.
variable (Nested : List Char → Tag → Prop)

-- What may stand in a tag, where this is the rest behind it: a text up to the next angle bracket,
-- or a tag.
inductive Part : List Char → Element → List Char → Prop
  | text {blank content rest} :
      Blank blank → IsContent content → Bare rest →
      Part (blank ++ content) (.text (String.ofList content)) rest
  | tag {text} {tag : Tag} {rest} :
      Nested text tag → Part text (.tag tag.name tag.attributes tag.body) rest

-- What stands behind the opening part of a tag: its elements and its closing part.
inductive Body : List Char → List Element → Prop
  | closing {text name} : Closing text name → Body text []
  | cons {text element rest items} :
      Part Nested text element rest → Body rest items → Body (text ++ rest) (element :: items)

variable {Nested} {text rest : List Char} {element : Element}

-- What follows an element counts only up to its first character.
theorem Part.of_append {more : List Char} (h : Part Nested text element (rest ++ more)) :
    Part Nested text element rest := by
  cases h with
  | text hblank hcontent hbare =>
      exact .text hblank hcontent (eq_false_of_head?_append hbare)
  | tag hnested => exact .tag hnested

theorem Part.append (h : Part Nested text element rest) (hne : rest ≠ []) (more : List Char) :
    Part Nested text element (rest ++ more) := by
  obtain ⟨c, rest, rfl⟩ := List.exists_cons_of_ne_nil hne
  cases h with
  | text hblank hcontent hbare => exact .text hblank hcontent hbare
  | tag hnested => exact .tag hnested

end Bodies

-- The names in the opening and the closing part may differ. Of attributes with the same name the
-- last one counts.
inductive Written : List Char → Tag → Prop
  | mk {opener name entries body items} :
      Opening opener (name, entries) → Body Written body items →
      Written (opener ++ body) ⟨name, SortedMap.ofEntries entries, items⟩

-- A whole text, with blanks around the tag.
def IsDocument (text : List Char) (tag : Tag) : Prop :=
  ∃ body blank, text = body ++ blank ∧ Written body tag ∧ Blank blank

end Descent.Html
