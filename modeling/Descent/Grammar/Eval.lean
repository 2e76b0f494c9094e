import Descent.Cursor
import Descent.Rules
import Descent.Trace

namespace Descent

-- What trying a grammar comes to: what it yields or why it failed, where the cursor is left, and
-- what happened to named parts on the way, the latest first.
structure Outcome (β : Type) where
  result : Except Failure β
  cursor : Cursor
  events : List Event

namespace Outcome

variable {β γ : Type}

def ok (value : β) (cursor : Cursor) : Outcome β := ⟨.ok value, cursor, []⟩

def failed (failure : Failure) (cursor : Cursor) : Outcome β := ⟨.error failure, cursor, []⟩

def map (f : β → γ) (outcome : Outcome β) : Outcome γ :=
  ⟨outcome.result.map f, outcome.cursor, outcome.events⟩

-- The outcome with what happened before it.
def after (outcome : Outcome β) (earlier : List Event) : Outcome β :=
  { outcome with events := outcome.events ++ earlier }

-- Whether it failed without a way back to `start`.
def committed (outcome : Outcome β) (start : Cursor) : Bool :=
  outcome.cursor.committedPast start.pos

-- The cursor back at `start`, with what has been committed to since.
def back (outcome : Outcome β) (start : Cursor) : Cursor := outcome.cursor.rewind start.toPlace

theorem committed_iff {outcome : Outcome β} {start : Cursor} :
    outcome.committed start ↔ start.pos < outcome.cursor.mark := by
  simp [committed, Cursor.committedPast]

theorem committed_eq_false_iff {outcome : Outcome β} {start : Cursor} :
    outcome.committed start = false ↔ outcome.cursor.mark ≤ start.pos := by
  simp [committed, Cursor.committedPast]

-- A value in place of another keeps a failure.
theorem map_result_eq_error_iff {f : β → γ} {outcome : Outcome β} {failure : Failure} :
    (outcome.map f).result = .error failure ↔ outcome.result = .error failure := by
  cases h : outcome.result <;> simp [map, h, Except.map]

theorem map_result_eq_ok_iff {f : β → γ} {outcome : Outcome β} {value : γ} :
    (outcome.map f).result = .ok value ↔ ∃ inner, outcome.result = .ok inner ∧ f inner = value := by
  cases h : outcome.result <;> simp [map, h, Except.map]

end Outcome

-- Kinds of computations that may be cut short.
class Interruptible (m : Type → Type) extends Monad m where
  cutShort : ∀ {β : Type}, m β

instance : Interruptible Option where
  cutShort := none

namespace Grammar

variable {α : Type} {m : Type → Type} [Interruptible m]

-- Trying a part of a grammar. What else becomes of it is up to `m`, which may cut it short; then
-- there is no outcome.
abbrev Attempt (m : Type → Type) (α : Type) := Grammar α → Cursor → m (Outcome (Node α))

-- Where the lexeme of a scanner begins, behind what is insignificant.
def scanStart (scanner : Scanner) (cursor : Cursor) : Cursor :=
  if scanner.keepsBlank cursor.skips then cursor else cursor.skipBlank

-- A scanner skips what is insignificant, then its lexeme has to stand there. If it does not, the
-- cursor stays where it was.
def attemptScan (scanner : Scanner) (cursor : Cursor) : Outcome (Node α) :=
  let start := scanStart scanner cursor
  match scanner.lex cursor.policy start.rest with
  | .ok lexeme => .ok lexeme.node (start.rewind (start.toPlace.after lexeme.consumed lexeme.rest))
  | .error miss => .failed ⟨start.pos + miss.offset, miss.expected⟩ cursor

-- A failure at the first significant character; the cursor stays.
def attemptNothing (expected : String) (cursor : Cursor) : Outcome (Node α) :=
  .failed (cursor.skipBlank.fail expected) cursor

-- All parts one after the other, up to the first that fails.
def attemptParts (attempt : Attempt m α) :
    List (Grammar α) → Cursor → m (Outcome (List (Node α)))
  | [], cursor => pure (.ok [] cursor)
  | part :: rest, cursor => do
    let first ← attempt part cursor
    match first.result with
    | .error failure => pure ⟨.error failure, first.cursor, first.events⟩
    | .ok node =>
      let others ← attemptParts attempt rest first.cursor
      pure ((others.map (node :: ·)).after first.events)

-- A sequence goes back to its start when a part fails, unless that is out of the question.
def attemptSeq (attempt : Attempt m α) (parts : List (Grammar α)) (cursor : Cursor) :
    m (Outcome (Node α)) := do
  let outcome ← attemptParts attempt parts cursor
  match outcome.result with
  | .ok nodes => pure ⟨.ok (.children nodes), outcome.cursor, outcome.events⟩
  | .error failure =>
    let stop := if outcome.committed cursor then outcome.cursor else outcome.back cursor
    pure ⟨.error failure, stop, outcome.events⟩

-- The one of two failures that got further, the earlier one if they got as far.
def further (best : Option Failure) (failure : Failure) : Failure :=
  match best with
  | none => failure
  | some best => if failure.isBeyond best then failure else best

-- The first alternative that matches. One that fails after committing itself ends the search;
-- if all fail otherwise, the failure that got furthest tells what was expected.
def attemptAny (attempt : Attempt m α) (start : Cursor) :
    Option Failure → List (Grammar α) → Cursor → m (Outcome (Node α))
  | best, [], cursor => pure (.failed (best.getD (cursor.fail "any alternative")) cursor)
  | best, alternative :: rest, cursor => do
    let outcome ← attempt alternative cursor
    match outcome.result with
    | .ok _ => pure outcome
    | .error failure =>
      if outcome.committed start then pure outcome
      else
        let others ← attemptAny attempt start (some (further best failure)) rest
          (outcome.back start)
        pure (others.after outcome.events)

-- A separator, if one is needed.
def attemptSeparator (attempt : Attempt m α) (separator : Option (Grammar α)) (cursor : Cursor) :
    m (Outcome (Node α)) :=
  match separator with
  | none => pure (.ok .empty cursor)
  | some separator => attempt separator cursor

-- Items as long as they match, of which `min` are still needed. An item that fails ends the
-- repetition, which fails with it if it has committed itself or if items are still needed; in the
-- second case it goes back to `start`. A separator that fails ends the repetition too. So does an
-- item that consumes nothing, not even in its separator, because it would match for ever.
-- `budget` bounds the number of items.
def attemptItems (attempt : Attempt m α) (item : Grammar α) (separator : Option (Grammar α))
    (start : Cursor) : Nat → Nat → Cursor → m (Outcome (List (Node α)))
  | 0, _, _ => Interruptible.cutShort
  | budget + 1, min, cursor => do
    let outcome ← attempt item cursor
    match outcome.result with
    | .error failure =>
      if outcome.committed cursor then pure ⟨.error failure, outcome.cursor, outcome.events⟩
      else if 0 < min then pure ⟨.error failure, outcome.back start, outcome.events⟩
      else pure ⟨.ok [], outcome.cursor, outcome.events⟩
    | .ok node =>
      let between ← attemptSeparator attempt separator outcome.cursor
      match between.result with
      | .error failure =>
        if between.committed outcome.cursor then
          pure ⟨.error failure, between.cursor, between.events ++ outcome.events⟩
        else pure ⟨.ok [node], between.cursor, between.events ++ outcome.events⟩
      | .ok _ =>
        if between.cursor.pos = cursor.pos then
          pure ⟨.ok [node], between.cursor, between.events ++ outcome.events⟩
        else
          let others ← attemptItems attempt item separator start budget (min - 1) between.cursor
          pure ((others.map (node :: ·)).after (between.events ++ outcome.events))

-- Every repetition but the last consumes at least one character.
def attemptMany (attempt : Attempt m α) (item : Grammar α) (separator : Option (Grammar α))
    (min : Nat) (cursor : Cursor) : m (Outcome (Node α)) := do
  let outcome ← attemptItems attempt item separator cursor (cursor.rest.length + 1) min cursor
  pure (outcome.map .children)

-- The part, or what becomes of its failure. One that has committed itself tells more and stays.
def attemptOr (attempt : Attempt m α) (recover : Outcome (Node α) → Outcome (Node α))
    (part : Grammar α) (cursor : Cursor) : m (Outcome (Node α)) := do
  let outcome ← attempt part cursor
  match outcome.result with
  | .ok _ => pure outcome
  | .error _ => if outcome.committed cursor then pure outcome else pure (recover outcome)

-- Nothing in place of the part.
def skipped (cursor : Cursor) (outcome : Outcome (Node α)) : Outcome (Node α) :=
  ⟨.ok .empty, outcome.back cursor, outcome.events⟩

-- A failure of the whole part, under its name and where the part would have started.
def labeled (name : String) (cursor : Cursor) (outcome : Outcome (Node α)) : Outcome (Node α) :=
  ⟨.error ((outcome.back cursor).skipBlank.fail name), outcome.back cursor, outcome.events⟩

-- The event of leaving a named part.
def leave (name : String) (outcome : Outcome (Node α)) : Event :=
  match outcome.result with
  | .ok _ => .matched name outcome.cursor.rest
  | .error failure => .failed name failure

-- The outcome between the events of entering and leaving a named part.
def traced (name : String) (cursor : Cursor) (outcome : Outcome (Node α)) : Outcome (Node α) :=
  { outcome with events := leave name outcome :: (outcome.events ++ [.entered name cursor.rest]) }

def attemptNamed (attempt : Attempt m α) (name : String) (part : Grammar α) (cursor : Cursor) :
    m (Outcome (Node α)) := do
  let outcome ← attempt part cursor
  pure (traced name cursor outcome)

-- The part with another node in place of its own.
def attemptMap (attempt : Attempt m α) (f : Node α → Node α) (part : Grammar α)
    (cursor : Cursor) : m (Outcome (Node α)) := do
  let outcome ← attempt part cursor
  pure (outcome.map f)

-- The part with skipping turned off; afterwards it is as it was.
def attemptTight (attempt : Attempt m α) (part : Grammar α) (cursor : Cursor) :
    m (Outcome (Node α)) := do
  let outcome ← attempt part (cursor.withAutoSkip false)
  pure { outcome with cursor := outcome.cursor.withAutoSkip cursor.autoSkip }

-- Tries a grammar, leaving its parts and the definitions of rules to `attempt`.
def attemptLevel (rules : Rules α) (attempt : Attempt m α) : Attempt m α
  | scan scanner, cursor => pure (attemptScan scanner cursor)
  | cut, cursor => pure (.ok .empty cursor.commit)
  | seq parts, cursor => attemptSeq attempt parts cursor
  | any alternatives, cursor => attemptAny attempt cursor none alternatives cursor
  | many item separator min, cursor => attemptMany attempt item separator min cursor
  | maybe part, cursor => attemptOr attempt (skipped cursor) part cursor
  | label name part, cursor => attemptOr attempt (labeled name cursor) part cursor
  | named name part, cursor => attemptNamed attempt name part cursor
  | map f part, cursor => attemptMap attempt f part cursor
  | bind value part, cursor => attemptMap attempt (fun _ => .value value) part cursor
  | merge part, cursor => attemptMap attempt (fun node => .token node.flatten) part cursor
  | tight part, cursor => attemptTight attempt part cursor
  | rule name, cursor =>
    match rules.definition? name with
    | none => pure (attemptNothing name cursor)
    | some definition => attemptNamed attempt name definition cursor

-- Tries a grammar, going down at most `fuel` levels into terms and definitions of rules.
def eval (rules : Rules α) : Nat → Attempt Option α
  | 0 => fun _ _ => none
  | fuel + 1 => attemptLevel rules (eval rules fuel)

-- Trying the grammar ends, and with this outcome.
def Returns (rules : Rules α) (grammar : Grammar α) (cursor : Cursor)
    (outcome : Outcome (Node α)) : Prop :=
  ∃ fuel, eval rules fuel grammar cursor = some outcome

-- Enough levels for every run that ends. A run that comes back to a rule has consumed something
-- in between, or committed itself, or turned off skipping; otherwise it would come back for ever.
def levels (rules : Rules α) (grammar : Grammar α) (cursor : Cursor) : Nat :=
  let visits := 4 * (cursor.rest.length + 1) * rules.definitions.length
  (visits + 1) * (max grammar.depth rules.depth + 1)

-- What is expected where a rule comes back to itself for ever.
def endless : String := "an end of the recursion"

-- Tries a grammar at a cursor.
def run (rules : Rules α) (grammar : Grammar α) (cursor : Cursor) : Outcome (Node α) :=
  (eval rules (levels rules grammar cursor) grammar cursor).getD
    (.failed (cursor.fail endless) cursor)

end Grammar

end Descent
