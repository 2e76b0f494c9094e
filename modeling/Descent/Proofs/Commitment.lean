import Descent.Proofs.Contract
import Descent.Proofs.Steps

namespace Descent

variable {α β : Type}

-- What a failing attempt leaves behind.
structure Ending where
  failure : Failure
  place : Place
  mark : Nat

def Outcome.ending? (outcome : Outcome β) : Option Ending :=
  match outcome.result with
  | .ok _ => none
  | .error failure => some ⟨failure, outcome.cursor.toPlace, outcome.cursor.mark⟩

theorem Outcome.ending?_of_ok {outcome : Outcome β} {value : β}
    (h : outcome.result = .ok value) : outcome.ending? = none := by
  simp [ending?, h]

theorem Outcome.ending?_of_error {outcome : Outcome β} {failure : Failure}
    (h : outcome.result = .error failure) :
    outcome.ending? = some ⟨failure, outcome.cursor.toPlace, outcome.cursor.mark⟩ := by
  simp [ending?, h]

theorem Outcome.result_of_ending? {outcome : Outcome β} {ending : Ending}
    (h : outcome.ending? = some ending) : outcome.result = .error ending.failure := by
  cases hresult : outcome.result with
  | ok value => simp [ending?_of_ok hresult] at h
  | error failure =>
      rw [ending?_of_error hresult] at h
      cases h
      rfl

theorem Outcome.ending?_map (f : α → β) (outcome : Outcome α) :
    (outcome.map f).ending? = outcome.ending? := by
  cases h : outcome.result <;> simp [ending?, map, h, Except.map]

namespace Step

def ending? : Step α → Option Ending
  | entered _ _ => none
  | left _ _ outcome => outcome.ending?

-- An attempt fails for good: it leaves the mark behind its own start.
def Commits : Step α → Ending → Prop
  | entered _ _, _ => False
  | left _ start outcome, ending => outcome.ending? = some ending ∧ start.pos < ending.mark

def Quiet (steps : List (Step α)) : Prop := ∀ step ∈ steps, ∀ ending, ¬step.Commits ending

-- After an attempt has failed for good nothing is entered, and every attempt that was under way
-- ends in the same way. So does whatever the steps belong to.
structure Final (start : Cursor) (outcome : Outcome β) (steps : List (Step α)) : Prop where
  order : steps.Pairwise fun step later =>
    ∀ ending, step.Commits ending → later.ending? = some ending
  last : ∀ step ∈ steps, ∀ ending, step.Commits ending →
    outcome.ending? = some ending ∧ start.pos < ending.mark

variable {start later : Cursor} {outcome : Outcome β} {steps first rest : List (Step α)}

theorem Quiet.pairwise (h : Quiet steps) : steps.Pairwise fun step later =>
    ∀ ending, step.Commits ending → later.ending? = some ending :=
  List.pairwise_of_forall_mem_list fun step hstep _ _ ending hcommits =>
    absurd hcommits (h step hstep ending)

theorem Quiet.final (h : Quiet steps) : Final start outcome steps where
  order := h.pairwise
  last step hstep ending hcommits := absurd hcommits (h step hstep ending)

theorem quiet_nil : Quiet ([] : List (Step α)) := by simp [Quiet]

namespace Final

theorem quiet_of_ok {value : β} (h : Final start outcome steps)
    (hresult : outcome.result = .ok value) : Quiet steps := by
  intro step hstep ending hcommits
  have hending := (h.last step hstep ending hcommits).1
  simp [Outcome.ending?_of_ok hresult] at hending

theorem quiet_of_mark_le {failure : Failure} (h : Final start outcome steps)
    (hresult : outcome.result = .error failure) (hmark : outcome.cursor.mark ≤ start.pos) :
    Quiet steps := by
  intro step hstep ending hcommits
  obtain ⟨hending, hlt⟩ := h.last step hstep ending hcommits
  rw [Outcome.ending?_of_error hresult] at hending
  cases hending
  exact Nat.not_lt_of_le hmark hlt

-- What is left behind for good is left behind by any larger attempt that keeps it.
theorem widen {γ : Type} {whole : Outcome γ} (h : Final later outcome steps)
    (hpos : start.pos ≤ later.pos)
    (hkeep : ∀ ending, outcome.ending? = some ending → later.pos < ending.mark →
      whole.ending? = some ending) : Final start whole steps where
  order := h.order
  last step hstep ending hcommits := by
    obtain ⟨hending, hlt⟩ := h.last step hstep ending hcommits
    exact ⟨hkeep ending hending hlt, Nat.lt_of_le_of_lt hpos hlt⟩

theorem append (hfirst : Quiet first) (hrest : Final start outcome rest) :
    Final start outcome (first ++ rest) where
  order := by
    refine List.pairwise_append.mpr ⟨hfirst.pairwise, hrest.order, ?_⟩
    intro step hstep _ _ ending hcommits
    exact absurd hcommits (hfirst step hstep ending)
  last step hstep ending hcommits := by
    cases List.mem_append.mp hstep with
    | inl hstep => exact absurd hcommits (hfirst step hstep ending)
    | inr hstep => exact hrest.last step hstep ending hcommits

-- An attempt after its inside.
theorem enclose {outcome : Outcome (Node α)} (h : Final start outcome steps)
    (grammar : Grammar α) :
    Final start outcome (.entered grammar start :: (steps ++ [.left grammar start outcome])) where
  order := by
    refine List.pairwise_cons.mpr ⟨fun _ _ _ hcommits => hcommits.elim, ?_⟩
    refine List.pairwise_append.mpr ⟨h.order, List.pairwise_singleton _ _, ?_⟩
    intro step hstep last hlast ending hcommits
    rw [List.mem_singleton.mp hlast]
    exact (h.last step hstep ending hcommits).1
  last step hstep ending hcommits := by
    simp only [List.mem_cons, List.mem_append, List.not_mem_nil, or_false] at hstep
    rcases hstep with rfl | hstep | rfl
    · exact hcommits.elim
    · exact h.last step hstep ending hcommits
    · exact hcommits

end Final

end Step

namespace Grammar

section Level

variable {Tried : Grammar α → Cursor → Outcome (Node α) → List (Step α) → Prop}
  (hparts : ∀ {part cursor outcome steps}, Tried part cursor outcome steps →
    Step.Final cursor outcome steps ∧ outcome.Contract cursor)

include hparts

theorem PartsRun.final {parts : List (Grammar α)} {cursor : Cursor}
    {outcome : Outcome (List (Node α))} {steps : List (Step α)}
    (h : PartsRun Tried parts cursor outcome steps) : Step.Final cursor outcome steps := by
  induction h with
  | nil => exact Step.quiet_nil.final
  | failed hpart hresult =>
      refine (hparts hpart).1.widen (Nat.le_refl _) fun ending hending _ => ?_
      rwa [Outcome.ending?_of_error hresult] at hending
  | cons hpart hresult _ ih =>
      obtain ⟨hfinal, hcontract⟩ := hparts hpart
      refine .append (hfinal.quiet_of_ok hresult) (ih.widen hcontract.reaches.pos_le ?_)
      intro ending hending _
      exact (Outcome.ending?_map _ _).trans hending

theorem AnyRun.final {start : Cursor} {best : Option Failure} {alternatives : List (Grammar α)}
    {cursor : Cursor} {outcome : Outcome (Node α)} {steps : List (Step α)}
    (h : AnyRun Tried start best alternatives cursor outcome steps)
    (hpos : start.pos = cursor.pos) : Step.Final start outcome steps := by
  induction h with
  | exhausted => exact Step.quiet_nil.final
  | matched hpart | committed hpart =>
      exact (hparts hpart).1.widen (Nat.le_of_eq hpos) fun _ hending _ => hending
  | next hpart hresult hmark _ ih =>
      refine .append ((hparts hpart).1.quiet_of_mark_le hresult (hpos ▸ hmark)) ?_
      exact (ih rfl).widen (Nat.le_refl _) fun _ hending _ => hending

theorem SeparatorRun.final {separator : Option (Grammar α)} {cursor : Cursor}
    {outcome : Outcome (Node α)} {steps : List (Step α)}
    (h : SeparatorRun Tried separator cursor outcome steps) :
    Step.Final cursor outcome steps := by
  cases h with
  | none => exact Step.quiet_nil.final
  | some hpart => exact (hparts hpart).1

theorem ItemsRun.final {item : Grammar α} {separator : Option (Grammar α)} {start : Cursor}
    {min : Nat} {cursor : Cursor} {outcome : Outcome (List (Node α))} {steps : List (Step α)}
    (h : ItemsRun Tried item separator start min cursor outcome steps)
    (hpos : start.pos ≤ cursor.pos) : Step.Final start outcome steps := by
  have hcontract {part cursor outcome steps} (hpart : Tried part cursor outcome steps) :=
    (hparts hpart).2
  induction h with
  | committed hitem hresult =>
      refine (hparts hitem).1.widen hpos fun ending hending _ => ?_
      rwa [Outcome.ending?_of_error hresult] at hending
  | short hitem hresult hmark | ended hitem hresult hmark =>
      exact ((hparts hitem).1.quiet_of_mark_le hresult hmark).final
  | separatorCommitted hitem hresult hseparator hseparated =>
      have hle := (hcontract hitem).reaches.pos_le
      refine .append ((hparts hitem).1.quiet_of_ok hresult) ?_
      refine (hseparator.final hparts).widen (Nat.le_trans hpos hle) fun ending hending _ => ?_
      rwa [Outcome.ending?_of_error hseparated] at hending
  | separatorEnded hitem hresult hseparator hseparated hmark =>
      have hquiet := (hseparator.final hparts).quiet_of_mark_le hseparated hmark
      exact .append ((hparts hitem).1.quiet_of_ok hresult) hquiet.final
  | stuck hitem hresult hseparator hseparated =>
      have hquiet := (hseparator.final hparts).quiet_of_ok hseparated
      exact .append ((hparts hitem).1.quiet_of_ok hresult) hquiet.final
  | next hitem hresult hseparator hseparated _ _ ih =>
      have hle := (hcontract hitem).reaches.pos_le
      have hle' := (hseparator.contract hcontract).reaches.pos_le
      have hquiet := (hseparator.final hparts).quiet_of_ok hseparated
      rw [List.append_assoc]
      refine .append ((hparts hitem).1.quiet_of_ok hresult) (.append hquiet ?_)
      refine (ih (by omega)).widen (Nat.le_refl _) fun ending hending _ => ?_
      exact (Outcome.ending?_map _ _).trans hending

theorem LevelRun.final {rules : Rules α} {grammar : Grammar α} {cursor : Cursor}
    {outcome : Outcome (Node α)} {steps : List (Step α)}
    (h : LevelRun Tried rules grammar cursor outcome steps) :
    Step.Final cursor outcome steps := by
  cases h with
  | scan | cut | undefined => exact Step.quiet_nil.final
  | seq hrun hresult => exact ((hrun.final hparts).quiet_of_ok hresult).final
  | seqCommitted hrun hresult =>
      refine (hrun.final hparts).widen (Nat.le_refl _) fun ending hending _ => ?_
      rwa [Outcome.ending?_of_error hresult] at hending
  | seqFailed hrun hresult hmark =>
      exact ((hrun.final hparts).quiet_of_mark_le hresult hmark).final
  | any hrun => exact hrun.final hparts rfl
  | many hrun =>
      refine (hrun.final hparts (Nat.le_refl _)).widen (Nat.le_refl _) fun ending hending _ => ?_
      exact (Outcome.ending?_map _ _).trans hending
  | maybe hpart | maybeCommitted hpart | label hpart | labelCommitted hpart =>
      exact (hparts hpart).1
  | maybeFailed hpart hresult hmark | labelFailed hpart hresult hmark =>
      exact ((hparts hpart).1.quiet_of_mark_le hresult hmark).final
  | named hpart | rule _ hpart | tight hpart =>
      exact (hparts hpart).1.widen (Nat.le_refl _) fun _ hending _ => hending
  | map hpart | bind hpart | merge hpart =>
      refine (hparts hpart).1.widen (Nat.le_refl _) fun ending hending _ => ?_
      exact (Outcome.ending?_map _ _).trans hending

end Level

variable {rules : Rules α} {grammar : Grammar α} {cursor : Cursor} {outcome : Outcome (Node α)}
  {steps : List (Step α)}

theorem Runs.final (h : Runs rules grammar cursor outcome steps) :
    Step.Final cursor outcome steps := by
  refine h.induction fun hlevel => (hlevel.final ?_).enclose _
  intro part cursor outcome steps hpart
  exact ⟨hpart.2, hpart.1.returns.contract⟩

-- An attempt that fails behind a cut crossed after its start is the last that is made. The
-- attempts under way then are left, the innermost first, and all with that failure.
theorem committed_failure_ends_run {before after : List (Step α)} {part : Grammar α}
    {start : Cursor} {inner : Outcome (Node α)} {failure : Failure}
    (h : Runs rules grammar cursor outcome (before ++ .left part start inner :: after))
    (hfailure : inner.result = .error failure) (hmark : start.pos < inner.cursor.mark) :
    outcome.result = .error failure ∧
      (∀ step ∈ after, ∃ whole origin last,
        step = .left whole origin last ∧ last.result = .error failure) ∧
      after.map Step.tried = Step.pending [] (before ++ [.left part start inner]) := by
  have hcommits : (Step.left part start inner).Commits
      ⟨failure, inner.cursor.toPlace, inner.cursor.mark⟩ :=
    ⟨Outcome.ending?_of_error hfailure, hmark⟩
  obtain ⟨horder, hlast⟩ := h.final
  obtain ⟨hending, -⟩ := hlast _ (by simp) _ hcommits
  have hafter := (List.pairwise_cons.mp (List.pairwise_append.mp horder).2.1).1
  have hleft : ∀ step ∈ after, ∃ whole origin last,
      step = .left whole origin last ∧ last.result = .error failure := by
    intro step hstep
    have hsame := hafter step hstep _ hcommits
    cases step with
    | entered whole origin => cases hsame
    | left whole origin last =>
        exact ⟨whole, origin, last, rfl, Outcome.result_of_ending? hsame⟩
  refine ⟨Outcome.result_of_ending? hending, hleft, ?_⟩
  refine h.map_tried_eq_pending (by simp) fun step hstep => ?_
  obtain ⟨whole, origin, last, heq, -⟩ := hleft step hstep
  exact ⟨whole, origin, last, heq⟩

-- Neither the second alternative nor the label makes anything of a failure behind the cut.
theorem committed_failure_ends_run_through_label :
    let start := Cursor.ofInput ['a', 'c'] .ascii
    let behind := { start with pos := 1, rest := ['c'] }
    let cut := { behind with mark := 1 }
    let stop : Outcome (Node Unit) := ⟨.error ⟨1, "b"⟩, cut, []⟩
    let branch : Grammar Unit := .seq [.exact "a", .cut, .exact "b"]
    let choice := .any [branch, .exact "ac"]
    let whole := .label "ab or ac" choice
    let before := [.entered whole start, .entered choice start, .entered branch start,
      .entered (.exact "a") start, .left (.exact "a") start (.ok (.token "a") behind),
      .entered .cut behind, .left .cut behind (.ok .empty cut),
      .entered (.exact "b") cut, .left (.exact "b") cut stop]
    let after := [.left choice start stop, .left whole start stop]
    (Runs {} whole start stop (before ++ .left branch start stop :: after) ∧
      stop.result = .error ⟨1, "b"⟩ ∧ start.pos < stop.cursor.mark) ∧
    (stop.result = .error ⟨1, "b"⟩ ∧
      (∀ step ∈ after, ∃ whole origin last,
        step = .left whole origin last ∧ last.result = .error ⟨1, "b"⟩) ∧
      after.map Step.tried = Step.pending [] (before ++ [.left branch start stop])) := by
  intro start behind cut stop branch choice whole before after
  have hruns : Runs {} whole start stop (before ++ .left branch start stop :: after) := ⟨4, rfl⟩
  have hmark : start.pos < stop.cursor.mark := by decide
  exact ⟨⟨hruns, rfl, hmark⟩, committed_failure_ends_run hruns rfl hmark⟩

end Grammar

end Descent
