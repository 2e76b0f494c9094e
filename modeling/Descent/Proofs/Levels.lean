import Descent.Proofs.Contract

namespace Descent.Grammar

variable {α : Type}

section Level

variable {attempt : Attempt (Watched (Step α)) α}
  {Tried : Grammar α → Cursor → Outcome (Node α) → List (Step α) → Prop}
  (hseen : ∀ part cursor outcome steps, Tried part cursor outcome steps →
    (attempt part cursor).seen = some (outcome, steps))

include hseen

private theorem seen_attemptParts {parts : List (Grammar α)} {cursor : Cursor}
    {outcome : Outcome (List (Node α))} {steps : List (Step α)}
    (h : PartsRun Tried parts cursor outcome steps) :
    (attemptParts attempt parts cursor).seen = some (outcome, steps) := by
  induction h with
  | nil => rfl
  | failed hpart hresult =>
      refine Watched.seen_bind_of_eq_pure (hseen _ _ _ _ hpart) ?_
      simp only [hresult]
  | cons hpart hresult _ ih =>
      refine Watched.seen_bind_of_seen (hseen _ _ _ _ hpart) ?_
      simp only [hresult]
      exact Watched.seen_bind_of_eq_pure ih rfl

theorem seen_attemptAny {start : Cursor} {best : Option Failure}
    {alternatives : List (Grammar α)} {cursor : Cursor} {outcome : Outcome (Node α)}
    {steps : List (Step α)} (h : AnyRun Tried start best alternatives cursor outcome steps) :
    (attemptAny attempt start best alternatives cursor).seen = some (outcome, steps) := by
  induction h with
  | exhausted => rfl
  | matched hpart hresult =>
      refine Watched.seen_bind_of_eq_pure (hseen _ _ _ _ hpart) ?_
      simp only [hresult]
  | committed hpart hresult hmark =>
      refine Watched.seen_bind_of_eq_pure (hseen _ _ _ _ hpart) ?_
      simp only [hresult, Outcome.committed_iff.mpr hmark, if_true]
  | next hpart hresult hmark _ ih =>
      refine Watched.seen_bind_of_seen (hseen _ _ _ _ hpart) ?_
      simp only [hresult, Outcome.committed_eq_false_iff.mpr hmark]
      exact Watched.seen_bind_of_eq_pure ih rfl

private theorem seen_attemptSeparator {separator : Option (Grammar α)} {cursor : Cursor}
    {outcome : Outcome (Node α)} {steps : List (Step α)}
    (h : SeparatorRun Tried separator cursor outcome steps) :
    (attemptSeparator attempt separator cursor).seen = some (outcome, steps) := by
  cases h with
  | none => rfl
  | some hpart => exact hseen _ _ _ _ hpart

-- The budget suffices, because all items but the last shorten the text that follows.
private theorem seen_attemptItems
    (hcontract : ∀ {part cursor outcome steps}, Tried part cursor outcome steps →
      outcome.Contract cursor)
    {item : Grammar α} {separator : Option (Grammar α)} {start : Cursor} {budget min : Nat}
    {cursor : Cursor} {outcome : Outcome (List (Node α))} {steps : List (Step α)}
    (h : ItemsRun Tried item separator start min cursor outcome steps)
    (hbudget : cursor.rest.length < budget) :
    (attemptItems attempt item separator start budget min cursor).seen =
      some (outcome, steps) := by
  induction h generalizing budget with
  | committed hitem hresult hmark =>
      obtain ⟨budget, rfl⟩ := Nat.exists_eq_add_of_lt hbudget
      refine Watched.seen_bind_of_eq_pure (hseen _ _ _ _ hitem) ?_
      simp only [hresult, Outcome.committed_iff.mpr hmark, if_true]
  | short hitem hresult hmark hmin =>
      obtain ⟨budget, rfl⟩ := Nat.exists_eq_add_of_lt hbudget
      refine Watched.seen_bind_of_eq_pure (hseen _ _ _ _ hitem) ?_
      simp only [hresult, Outcome.committed_eq_false_iff.mpr hmark, hmin, if_true]
      rfl
  | ended hitem hresult hmark =>
      obtain ⟨budget, rfl⟩ := Nat.exists_eq_add_of_lt hbudget
      refine Watched.seen_bind_of_eq_pure (hseen _ _ _ _ hitem) ?_
      simp only [hresult, Outcome.committed_eq_false_iff.mpr hmark]
      rfl
  | separatorCommitted hitem hresult hseparator hseparated hmark =>
      obtain ⟨budget, rfl⟩ := Nat.exists_eq_add_of_lt hbudget
      refine Watched.seen_bind_of_seen (hseen _ _ _ _ hitem) ?_
      simp only [hresult]
      refine Watched.seen_bind_of_eq_pure (seen_attemptSeparator hseen hseparator) ?_
      simp only [hseparated, Outcome.committed_iff.mpr hmark, if_true]
  | separatorEnded hitem hresult hseparator hseparated hmark =>
      obtain ⟨budget, rfl⟩ := Nat.exists_eq_add_of_lt hbudget
      refine Watched.seen_bind_of_seen (hseen _ _ _ _ hitem) ?_
      simp only [hresult]
      refine Watched.seen_bind_of_eq_pure (seen_attemptSeparator hseen hseparator) ?_
      simp only [hseparated, Outcome.committed_eq_false_iff.mpr hmark]
      rfl
  | stuck hitem hresult hseparator hseparated hstuck =>
      obtain ⟨budget, rfl⟩ := Nat.exists_eq_add_of_lt hbudget
      refine Watched.seen_bind_of_seen (hseen _ _ _ _ hitem) ?_
      simp only [hresult]
      refine Watched.seen_bind_of_eq_pure (seen_attemptSeparator hseen hseparator) ?_
      simp only [hseparated, hstuck, if_true]
  | next hitem hresult hseparator hseparated hmoved _ ih =>
      obtain ⟨budget, rfl⟩ := Nat.exists_eq_add_of_lt hbudget
      have hmiddle := (hcontract hitem).reaches.place
      have hplace := hmiddle.trans (hseparator.contract hcontract).reaches.place
      have hshorter := hplace.rest_length_lt hmoved
      rw [List.append_assoc]
      refine Watched.seen_bind_of_seen (hseen _ _ _ _ hitem) ?_
      simp only [hresult]
      refine Watched.seen_bind_of_seen (seen_attemptSeparator hseen hseparator) ?_
      simp only [hseparated, hmoved]
      exact Watched.seen_bind_of_eq_pure (ih (by omega)) rfl

theorem seen_attemptLevel
    (hcontract : ∀ {part cursor outcome steps}, Tried part cursor outcome steps →
      outcome.Contract cursor)
    {rules : Rules α} {grammar : Grammar α} {cursor : Cursor} {outcome : Outcome (Node α)}
    {steps : List (Step α)} (h : LevelRun Tried rules grammar cursor outcome steps) :
    (attemptLevel rules attempt grammar cursor).seen = some (outcome, steps) := by
  cases h with
  | scan | cut => rfl
  | seq hrun hresult =>
      refine Watched.seen_bind_of_eq_pure (seen_attemptParts hseen hrun) ?_
      simp only [hresult]
  | seqCommitted hrun hresult hmark =>
      refine Watched.seen_bind_of_eq_pure (seen_attemptParts hseen hrun) ?_
      simp only [hresult, Outcome.committed_iff.mpr hmark, if_true]
  | seqFailed hrun hresult hmark =>
      refine Watched.seen_bind_of_eq_pure (seen_attemptParts hseen hrun) ?_
      simp only [hresult, Outcome.committed_eq_false_iff.mpr hmark]
      rfl
  | any hrun => exact seen_attemptAny hseen hrun
  | many hrun =>
      have hitems := seen_attemptItems hseen hcontract hrun (Nat.lt_succ_self _)
      exact Watched.seen_bind_of_eq_pure hitems rfl
  | maybe hpart hresult | label hpart hresult =>
      refine Watched.seen_bind_of_eq_pure (hseen _ _ _ _ hpart) ?_
      simp only [hresult]
  | maybeCommitted hpart hresult hmark | labelCommitted hpart hresult hmark =>
      refine Watched.seen_bind_of_eq_pure (hseen _ _ _ _ hpart) ?_
      simp only [hresult, Outcome.committed_iff.mpr hmark, if_true]
  | maybeFailed hpart hresult hmark | labelFailed hpart hresult hmark =>
      refine Watched.seen_bind_of_eq_pure (hseen _ _ _ _ hpart) ?_
      simp only [hresult, Outcome.committed_eq_false_iff.mpr hmark]
      rfl
  | named hpart | map hpart | bind hpart | merge hpart | tight hpart =>
      exact Watched.seen_bind_of_eq_pure (hseen _ _ _ _ hpart) rfl
  | undefined hdefinition =>
      simp only [attemptLevel, hdefinition]
      rfl
  | rule hdefinition hpart =>
      simp only [attemptLevel, hdefinition]
      exact Watched.seen_bind_of_eq_pure (hseen _ _ _ _ hpart) rfl

end Level

variable {rules : Rules α} {grammar : Grammar α} {cursor : Cursor} {outcome : Outcome (Node α)}
  {steps : List (Step α)}

-- The runs are just what can be built level by level.
theorem runs_iff : Runs rules grammar cursor outcome steps ↔
    ∃ inner, LevelRun (Runs rules) rules grammar cursor outcome inner ∧
      steps = .entered grammar cursor :: (inner ++ [.left grammar cursor outcome]) := by
  constructor
  · exact Runs.levelRun
  · rintro ⟨inner, hlevel, rfl⟩
    refine runs_of_seen_watchFully (seen_attemptLevel ?_ ?_ hlevel)
    · exact fun _ _ _ _ => seen_watchFully_iff.mpr
    · exact fun hpart => hpart.returns.contract

theorem exists_runs_of_level
    (h : ∃ inner, LevelRun (Runs rules) rules grammar cursor outcome inner) :
    ∃ steps, Runs rules grammar cursor outcome steps := by
  obtain ⟨inner, hlevel⟩ := h
  exact ⟨_, runs_iff.mpr ⟨inner, hlevel, rfl⟩⟩

end Descent.Grammar
