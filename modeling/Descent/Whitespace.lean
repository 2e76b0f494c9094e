import Descent.Text.Blank

namespace Descent

-- Which characters are insignificant between tokens.
inductive Whitespace where
  | none
  | ascii
  | unicode
  -- any other choice, known by its name
  | custom (name : String) (accepts : Char → Bool)

namespace Whitespace

instance : Inhabited Whitespace := ⟨ascii⟩

def accepts : Whitespace → Char → Bool
  | none, _ => false
  | ascii, c => Text.isAsciiBlank c
  | unicode, c => Text.isBlank c
  | custom _ accepts, c => accepts c

-- Choices of one's own are the same if they have the same name.
def same : Whitespace → Whitespace → Bool
  | none, none | ascii, ascii | unicode, unicode => true
  | custom a _, custom b _ => a == b
  | _, _ => false

instance : BEq Whitespace := ⟨same⟩

def describe : Whitespace → String
  | none => "None"
  | ascii => "Ascii"
  | unicode => "Unicode"
  | custom _ _ => "Custom(..)"

end Whitespace

end Descent
