import Descent.Unicode.Property

namespace Descent.Text

-- How one character stands between double quotes: by name if it has one, by its code point if it
-- has no picture of its own, else as it is. A single quote needs no escape.
def escaped (c : Char) : List Char :=
  match c with
  | '"' => ['\\', '"']
  | '\\' => ['\\', '\\']
  | '\n' => ['\\', 'n']
  | '\t' => ['\\', 't']
  | '\r' => ['\\', 'r']
  | '\x00' => ['\\', '0']
  | c =>
    if Unicode.extendsGrapheme c || !Unicode.isPrintable c then
      ['\\', 'u', '{'] ++ Nat.toDigits 16 c.toNat ++ ['}']
    else [c]

-- A text between double quotes, with what cannot stand there escaped.
def quoted (text : List Char) : String :=
  String.ofList ('"' :: text.flatMap escaped ++ ['"'])

end Descent.Text
