namespace Descent

-- What was expected, and the byte offset where it was not found.
structure Failure where
  pos : Nat
  expected : String
  deriving DecidableEq, Repr

namespace Failure

def message (failure : Failure) : String :=
  s!"offset {failure.pos}: expected {failure.expected}"

-- Of several failures the one that got furthest into the text tells most about it.
def isBeyond (failure other : Failure) : Bool := other.pos < failure.pos

end Failure

-- Why a text was not accepted.
inductive ParseError where
  | unmatched (failure : Failure)
  -- the grammar matched, but not all of the text
  | unparsed (pos : Nat) (remaining : String)
  deriving DecidableEq, Repr

namespace ParseError

def pos : ParseError → Nat
  | unmatched failure => failure.pos
  | unparsed pos _ => pos

def message : ParseError → String
  | unmatched failure => failure.message
  | unparsed _ remaining => s!"left unparsed: {remaining}"

end ParseError

-- Why a grammar cannot be built.
inductive GrammarError where
  | invalidPattern (pattern : String)
  | ruleRedefined (name : String)
  deriving DecidableEq, Repr

namespace GrammarError

def message : GrammarError → String
  | invalidPattern pattern => "invalid regex \x60" ++ pattern ++ "\x60: error building NFA"
  | ruleRedefined name => "rule \x60" ++ name ++ "\x60 is already defined"

end GrammarError

end Descent
