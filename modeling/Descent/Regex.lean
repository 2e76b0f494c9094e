import Descent.Failure
import Descent.Regex.Reader

namespace Descent

-- A regular expression together with the text it was written as.
structure Regex where
  source : String
  expr : Regex.Expr

namespace Regex

def ofString (source : String) : Except GrammarError Regex :=
  match Reader.read? source.toList with
  | some expr => .ok ⟨source, expr⟩
  | none => .error (.invalidPattern source)

end Regex

end Descent
