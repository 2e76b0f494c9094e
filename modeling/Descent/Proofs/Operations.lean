import Descent.Proofs.Boundaries

namespace Descent

open Text

variable {α : Type}

-- What can be done with a cursor.
inductive Operation (α : Type) where
  -- skips what is insignificant
  | skipBlank
  | skipWith (policy : Whitespace)
  | commit
  -- goes to a byte offset
  | rewind (pos : Nat)
  -- goes on by a number of bytes
  | advance (n : Nat)
  -- does all this with skipping turned off
  | tight (operations : List (Operation α))
  | parse (rules : Rules α) (grammar : Grammar α)

-- A cursor in use, with all that it has been since and all failures that have been returned, those
-- inside of matches too, the latest first.
structure Session where
  cursor : Cursor
  visited : List Cursor
  failures : List Failure

def Step.cursor : Step α → Cursor
  | .entered _ cursor => cursor
  | .left _ _ outcome => outcome.cursor

def Step.failure? : Step α → Option Failure
  | .entered _ _ => none
  | .left _ _ outcome =>
    match outcome.result with
    | .ok _ => none
    | .error failure => some failure

namespace Session

def move (session : Session) (cursor : Cursor) : Session :=
  ⟨cursor, cursor :: session.visited, session.failures⟩

-- What has been seen of a match is added, and the cursor is left as the match leaves it.
def parsed (session : Session) (cursor : Cursor) (steps : List (Step α)) : Session :=
  ⟨cursor, cursor :: (steps.map Step.cursor ++ session.visited),
    steps.filterMap Step.failure? ++ session.failures⟩

end Session

-- Performs operations one after the other. The cursor goes back only to where it has been, and on
-- only by whole characters or past the end.
inductive Performs : List (Operation α) → Session → Session → Prop
  | nil {session} : Performs [] session session
  | skipBlank {rest session stop} :
      Performs rest (session.move session.cursor.skipBlank) stop →
      Performs (.skipBlank :: rest) session stop
  | skipWith {policy rest session stop} :
      Performs rest (session.move (session.cursor.skipWith policy)) stop →
      Performs (.skipWith policy :: rest) session stop
  | commit {rest session stop} :
      Performs rest (session.move session.cursor.commit) stop →
      Performs (.commit :: rest) session stop
  | rewind {seen rest} {session : Session} {stop} :
      seen ∈ session.visited →
      Performs rest (session.move (session.cursor.moveTo seen.pos)) stop →
      Performs (.rewind seen.pos :: rest) session stop
  | advance {n rest session stop} :
      IsBoundary session.cursor.rest n ∨ byteSize session.cursor.rest ≤ n →
      Performs rest (session.move (session.cursor.advance n)) stop →
      Performs (.advance n :: rest) session stop
  | tight {operations rest session inner stop} :
      Performs operations (session.move (session.cursor.withAutoSkip false)) inner →
      Performs rest (inner.move (inner.cursor.withAutoSkip session.cursor.autoSkip)) stop →
      Performs (.tight operations :: rest) session stop
  | parse {rules grammar rest session outcome steps stop} :
      Grammar.Runs rules grammar session.cursor outcome steps →
      Performs rest (session.parsed outcome.cursor steps) stop →
      Performs (.parse rules grammar :: rest) session stop

section Within

variable {input : List Char} {step : Step α} {session start stop : Session}
  {operations : List (Operation α)}

theorem Step.Within.cursor (h : step.Within input) : step.cursor.Within input := by
  cases step with
  | entered => exact h
  | left => exact Outcome.Within.cursor h

theorem Step.Within.failure (h : step.Within input) {failure : Failure}
    (hfailure : step.failure? = some failure) : IsBoundary input failure.pos := by
  cases step with
  | entered => cases hfailure
  | left _ _ outcome =>
      refine Outcome.Within.failure h failure ?_
      cases hresult : outcome.result with
      | ok node => simp [failure?, hresult] at hfailure
      | error other => simpa [failure?, hresult] using hfailure

structure Session.Within (input : List Char) (session : Session) : Prop where
  current : session.cursor ∈ session.visited
  visited : ∀ cursor ∈ session.visited, cursor.Within input
  failures : ∀ failure ∈ session.failures, IsBoundary input failure.pos

namespace Session.Within

theorem cursor (h : session.Within input) : session.cursor.Within input :=
  h.visited _ h.current

theorem move (h : session.Within input) {cursor : Cursor} (hcursor : cursor.Within input) :
    (session.move cursor).Within input where
  current := List.mem_cons_self
  visited := List.forall_mem_cons.mpr ⟨hcursor, h.visited⟩
  failures := h.failures

theorem parsed (h : session.Within input) {cursor : Cursor} (hcursor : cursor.Within input)
    {steps : List (Step α)} (hsteps : ∀ step ∈ steps, step.Within input) :
    (session.parsed cursor steps).Within input where
  current := List.mem_cons_self
  visited := by
    refine List.forall_mem_cons.mpr ⟨hcursor, List.forall_mem_append.mpr ⟨?_, h.visited⟩⟩
    exact List.forall_mem_map.mpr fun step hmem => (hsteps step hmem).cursor
  failures := by
    refine List.forall_mem_append.mpr ⟨fun failure hmem => ?_, h.failures⟩
    obtain ⟨step, hstep, hfailure⟩ := List.mem_filterMap.mp hmem
    exact (hsteps step hstep).failure hfailure

end Session.Within

theorem Cursor.Within.advance {cursor : Cursor} (h : cursor.Within input) {n : Nat}
    (hn : IsBoundary cursor.rest n ∨ byteSize cursor.rest ≤ n) :
    (cursor.advance n).Within input := by
  refine h.moveTo ?_
  have hend := h.sound.pos_add_eq
  cases hn with
  | inl hboundary =>
      have hle := hboundary.le
      rw [Nat.min_eq_left (by omega)]
      exact h.isBoundary_ahead hboundary
  | inr hpast =>
      rw [Nat.min_eq_right (by omega), h.input_eq]
      exact h.rest.1.isBoundary_stop

theorem Performs.within (h : Performs operations start stop) (hstart : start.Within input) :
    stop.Within input := by
  induction h with
  | nil => exact hstart
  | skipBlank _ ih => exact ih (hstart.move hstart.cursor.skipBlank)
  | skipWith _ ih => exact ih (hstart.move (hstart.cursor.skipWhile _))
  | commit _ ih => exact ih (hstart.move hstart.cursor.commit)
  | rewind hseen _ ih =>
      exact ih (hstart.move (hstart.cursor.moveTo (hstart.visited _ hseen).pos))
  | advance hn _ ih => exact ih (hstart.move (hstart.cursor.advance hn))
  | tight _ _ ihinner ih =>
      have hinner := ihinner (hstart.move (hstart.cursor.withAutoSkip false))
      exact ih (hinner.move (hinner.cursor.withAutoSkip _))
  | parse hruns _ ih =>
      obtain ⟨houtcome, hsteps⟩ := hruns.within hstart.cursor
      exact ih (hstart.parsed houtcome.cursor hsteps)

end Within

end Descent
