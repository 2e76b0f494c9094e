import Descent.Json
import Descent.Proofs.Lexemes

-- The texts that are documents, and what they stand for.
namespace Descent.Json

open Scanner

variable {β : Type}

def Blank (text : List Char) : Prop := ∀ c ∈ text, Text.isAsciiBlank c

instance (text : List Char) : Decidable (Blank text) :=
  List.decidableBAll _ text

-- A token with the blanks before it.
inductive Token (literal : List Char) : List Char → Prop
  | mk {blank} : Blank blank → Token literal (blank ++ literal)

section Contents

-- `Item text item` says that the text stands for the item.
variable (Item : List Char → β → Prop)

-- An item with the blanks before it.
inductive Spaced : List Char → β → Prop
  | mk {blank text item} : Blank blank → Item text item → Spaced (blank ++ text) item

-- Items with commas between them.
inductive Listed : List Char → List β → Prop
  | one {text item} : Item text item → Listed text [item]
  | cons {text item comma rest items} :
      Item text item → Token [','] comma → Listed rest items →
      Listed (text ++ comma ++ rest) (item :: items)

-- What may stand between brackets: nothing, or items with commas between them and perhaps one more
-- comma behind the last of them.
inductive Contents : List Char → List β → Prop
  | empty : Contents [] []
  | listed {text items} : Listed Item text items → Contents text items
  | trailing {text comma items} :
      Listed Item text items → Token [','] comma → Contents (text ++ comma) items

-- A key between quotes, a colon and the item that belongs to the key.
inductive Property : List Char → String × β → Prop
  | mk {body key literal colon text item} :
      Quoted.Spells '"' body key → Token ('"' :: (body ++ ['"'])) literal → Token [':'] colon →
      Spaced Item text item → Property (literal ++ colon ++ text) (String.ofList key, item)

end Contents

-- A text without blanks around it that stands for a value. Of properties with the same key the
-- last one counts.
inductive Written : List Char → Value Empty → Prop
  | null : Written "null".toList .null
  | true : Written "true".toList (.bool true)
  | false : Written "false".toList (.bool false)
  | string {body text} :
      Quoted.Spells '"' body text → Written ('"' :: (body ++ ['"'])) (.str (String.ofList text))
  | number {numeral value} :
      Numeral.WellFormed numeral → numeral.Denotes value → Written numeral.text value
  | array {body close items} :
      Contents (Spaced Written) body items → Token [']'] close →
      Written ('[' :: (body ++ close)) (.list items)
  | object {body close properties entries} :
      Contents (Property Written) body properties → Token ['\x7d'] close →
      SortedMap.Sorted entries →
      (∀ key, SortedMap.find? key entries = SortedMap.find? key properties.reverse) →
      Written ('\x7b' :: (body ++ close)) (.map entries)

-- A whole text, with blanks around the value.
def IsDocument (text : List Char) (value : Value Empty) : Prop :=
  ∃ body blank, text = body ++ blank ∧ Spaced Written body value ∧ Blank blank

end Descent.Json
