import Descent.Node

namespace Descent

-- What a scanner recognised at the start of a text: the part it consumed, what follows that
-- part, and what the part yields.
structure Lexeme (α : Type) where
  consumed : List Char
  rest : List Char
  node : Node α

namespace Lexeme

variable {α : Type}

-- Consumed text that is yielded as it stands.
def token (consumed rest : List Char) : Lexeme α :=
  ⟨consumed, rest, .token (String.ofList consumed)⟩

end Lexeme

-- What a scanner missed: what it expected, and how many bytes into the text.
structure Miss where
  offset : Nat
  expected : String
  deriving DecidableEq, Repr

end Descent
