import Descent.Grammar.Eval
import Descent.Location

namespace Descent

-- The answer to applying a grammar to a whole text. The node stays available when the grammar
-- matched but left some of the text behind.
structure Answer (α : Type) where
  node : Option (Node α)
  -- what follows the match and the insignificant characters behind it
  remaining : List Char
  error : Option ParseError

namespace Answer

variable {α : Type}

def isOk (answer : Answer α) : Bool := answer.error.isNone

-- The value of the whole match, if it has one.
def value? (answer : Answer α) : Option (Value α) := answer.node.bind Node.value?

-- The node, unless there is any error.
def toExcept (answer : Answer α) : Except ParseError (Node α) :=
  match answer.error with
  | some error => .error error
  | none => .ok (answer.node.getD .empty)

-- The answer to an outcome: the match has to reach the end of the text but for insignificant
-- characters.
def ofOutcome (outcome : Outcome (Node α)) : Answer α :=
  match outcome.result with
  | .ok node =>
    let stop := outcome.cursor.skipBlank
    ⟨some node, stop.rest,
      if stop.atEnd then none else some (.unparsed stop.pos (String.ofList stop.rest))⟩
  | .error failure => ⟨none, outcome.cursor.rest, some (.unmatched failure)⟩

-- There is a node without an error where the grammar matched all of the text.
theorem toExcept_ofOutcome_eq_ok_iff {outcome : Outcome (Node α)} {node : Node α} :
    (ofOutcome outcome).toExcept = .ok node ↔
      outcome.result = .ok node ∧ outcome.cursor.skipBlank.atEnd := by
  unfold ofOutcome
  cases hresult : outcome.result with
  | error failure => simp [toExcept]
  | ok found => cases hend : outcome.cursor.skipBlank.atEnd <;> simp [toExcept, hend]

theorem toExcept_eq_error_iff {answer : Answer α} {error : ParseError} :
    answer.toExcept = .error error ↔ answer.error = some error := by
  unfold toExcept
  cases answer.error with
  | none => simp
  | some found => simp

-- How a log closes.
def summary (answer : Answer α) (input : List Char) : String :=
  match answer.error with
  | none => s!"parsed {Text.byteSize input} bytes"
  | some error => s!"parse of {Text.byteSize input} bytes failed: {error.message}"

end Answer

namespace Grammar

variable {α : Type}

-- Tries a grammar behind the insignificant characters at the start of a text.
def runFromStart (rules : Rules α) (grammar : Grammar α) (policy : Whitespace)
    (input : List Char) : Outcome (Node α) :=
  run rules grammar (Cursor.ofInput input policy).skipBlank

-- Applies a grammar to a whole text.
def parse (rules : Rules α) (grammar : Grammar α) (policy : Whitespace) (input : List Char) :
    Answer α :=
  .ofOutcome (runFromStart rules grammar policy input)

-- The node for a whole text between whose tokens ASCII blanks are insignificant.
def parseAll (rules : Rules α) (grammar : Grammar α) (input : List Char) :
    Except ParseError (Node α) :=
  (parse rules grammar .ascii input).toExcept

-- The answer together with everything that happened to named parts, the earliest first.
def parseTraced (rules : Rules α) (grammar : Grammar α) (policy : Whitespace)
    (input : List Char) : Answer α × List Event :=
  let outcome := runFromStart rules grammar policy input
  (.ofOutcome outcome, outcome.events.reverse)

end Grammar

end Descent
