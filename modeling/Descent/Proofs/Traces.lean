import Descent.Proofs.Logs
import Descent.Proofs.Visits

namespace Descent

variable {α : Type}

namespace Grammar

-- The name under which a grammar is traced: that of a named part, or of a rule that is defined.
def tracedAs? (rules : Rules α) : Grammar α → Option String
  | named name _ => some name
  | rule name => (rules.definition? name).map fun _ => name
  | scan _ | cut | seq _ | any _ | many _ _ _ | maybe _ | label _ _ | map _ _ | bind _ _ | merge _
  | tight _ => none

end Grammar

-- What a step of a run adds to the log.
def Step.event? (rules : Rules α) : Step α → Option Event
  | entered grammar start => (grammar.tracedAs? rules).map fun name => .entered name start.rest
  | left grammar _ outcome => (grammar.tracedAs? rules).map fun name => Grammar.leave name outcome

-- What the steps of a run add to the log.
def Step.events (rules : Rules α) (steps : List (Step α)) : List Event :=
  steps.filterMap (Step.event? rules)

namespace Grammar

variable {rules : Rules α} {grammar : Grammar α} {cursor : Cursor} {outcome : Outcome (Node α)}
  {steps inner : List (Step α)} {name : String}

theorem events_append (rules : Rules α) (first rest : List (Step α)) :
    Step.events rules (first ++ rest) = Step.events rules first ++ Step.events rules rest :=
  List.filterMap_append

theorem events_untraced (h : grammar.tracedAs? rules = none) :
    Step.events rules (.entered grammar cursor :: (inner ++ [.left grammar cursor outcome])) =
      Step.events rules inner := by
  have hentered : Step.event? rules (.entered grammar cursor) = none := by
    rw [Step.event?, h]
    rfl
  have hleft : Step.event? rules (.left grammar cursor outcome) = none := by
    rw [Step.event?, h]
    rfl
  rw [Step.events, List.filterMap_cons_none hentered, List.filterMap_append,
    List.filterMap_cons_none hleft, List.filterMap_nil, List.append_nil, Step.events]

theorem events_traced (h : grammar.tracedAs? rules = some name) :
    Step.events rules (.entered grammar cursor :: (inner ++ [.left grammar cursor outcome])) =
      .entered name cursor.rest :: (Step.events rules inner ++ [leave name outcome]) := by
  have hentered : Step.event? rules (.entered grammar cursor) =
      some (.entered name cursor.rest) := by
    rw [Step.event?, h]
    rfl
  have hleft : Step.event? rules (.left grammar cursor outcome) = some (leave name outcome) := by
    rw [Step.event?, h]
    rfl
  rw [Step.events, List.filterMap_cons_some hentered, List.filterMap_append,
    List.filterMap_cons_some hleft, List.filterMap_nil, Step.events]

theorem reverse_events_traced (name : String) (cursor : Cursor) (outcome : Outcome (Node α)) :
    (traced name cursor outcome).events.reverse =
      .entered name cursor.rest :: (outcome.events.reverse ++ [leave name outcome]) := by
  rw [traced, List.reverse_cons, List.reverse_append, List.reverse_singleton]
  rfl

theorem events_attemptScan (scanner : Scanner) (cursor : Cursor) :
    (attemptScan scanner cursor : Outcome (Node α)).events = [] := by
  simp only [attemptScan]
  cases scanner.lex (α := α) cursor.policy (scanStart scanner cursor).rest <;> rfl

section Level

variable {Tried : Grammar α → Cursor → Outcome (Node α) → List (Step α) → Prop}
  (hparts : ∀ {part cursor outcome steps}, Tried part cursor outcome steps →
    outcome.events.reverse = Step.events rules steps)

include hparts

theorem PartsRun.events {parts : List (Grammar α)} {outcome : Outcome (List (Node α))}
    (h : PartsRun Tried parts cursor outcome steps) :
    outcome.events.reverse = Step.events rules steps := by
  induction h with
  | nil => rfl
  | failed hpart => exact hparts hpart
  | cons hpart _ _ ih =>
      rw [events_append, ← hparts hpart, ← ih]
      exact List.reverse_append

theorem AnyRun.events {start : Cursor} {best : Option Failure} {alternatives : List (Grammar α)}
    (h : AnyRun Tried start best alternatives cursor outcome steps) :
    outcome.events.reverse = Step.events rules steps := by
  induction h with
  | exhausted => rfl
  | matched hpart | committed hpart => exact hparts hpart
  | next hpart _ _ _ ih =>
      rw [events_append, ← hparts hpart, ← ih]
      exact List.reverse_append

theorem SeparatorRun.events {separator : Option (Grammar α)}
    (h : SeparatorRun Tried separator cursor outcome steps) :
    outcome.events.reverse = Step.events rules steps := by
  cases h with
  | none => rfl
  | some hpart => exact hparts hpart

theorem ItemsRun.events {item : Grammar α} {separator : Option (Grammar α)} {start : Cursor}
    {min : Nat} {outcome : Outcome (List (Node α))}
    (h : ItemsRun Tried item separator start min cursor outcome steps) :
    outcome.events.reverse = Step.events rules steps := by
  induction h with
  | committed hitem | short hitem | ended hitem => exact hparts hitem
  | separatorCommitted hitem _ hseparator | separatorEnded hitem _ hseparator
  | stuck hitem _ hseparator =>
      rw [events_append, ← hparts hitem, ← hseparator.events hparts]
      exact List.reverse_append
  | next hitem _ hseparator _ _ _ ih =>
      rw [events_append, events_append, ← hparts hitem, ← hseparator.events hparts, ← ih,
        ← List.reverse_append]
      exact List.reverse_append

theorem LevelRun.events (h : LevelRun Tried rules grammar cursor outcome inner) :
    outcome.events.reverse =
      Step.events rules (.entered grammar cursor :: (inner ++ [.left grammar cursor outcome])) := by
  cases h with
  | scan =>
      rw [events_untraced rfl, events_attemptScan]
      rfl
  | cut =>
      rw [events_untraced rfl]
      rfl
  | seq hrun | seqCommitted hrun | seqFailed hrun =>
      rw [events_untraced rfl]
      exact hrun.events hparts
  | any hrun =>
      rw [events_untraced rfl]
      exact hrun.events hparts
  | many hrun =>
      rw [events_untraced rfl]
      exact hrun.events hparts
  | maybe hpart | maybeCommitted hpart | maybeFailed hpart | label hpart | labelCommitted hpart
  | labelFailed hpart | map hpart | bind hpart | merge hpart | tight hpart =>
      rw [events_untraced rfl]
      have hevents := hparts hpart
      exact hevents
  | named hpart =>
      rw [events_traced rfl, ← hparts hpart]
      exact reverse_events_traced _ _ _
  | undefined hdefinition =>
      rw [events_untraced (by rw [tracedAs?, hdefinition]; rfl)]
      rfl
  | rule hdefinition hpart =>
      rw [events_traced (by rw [tracedAs?, hdefinition]; rfl), ← hparts hpart]
      exact reverse_events_traced _ _ _

end Level

section Whole

variable {input : List Char} {policy : Whitespace}

end Whole

end Grammar

end Descent
