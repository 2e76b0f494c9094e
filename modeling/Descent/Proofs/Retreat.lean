import Descent.Proofs.Commitment
import Descent.Proofs.Levels

namespace Descent.Grammar

variable {α : Type}

-- A repetition that began at `start` and has come to this cursor, with so many items still needed,
-- runs out of items behind a cut. The item that is missing fails without a cut of its own, so the
-- repetition takes its way back, over the cuts of the items before.
inductive FallsShort (rules : Rules α) (item : Grammar α) (separator : Option (Grammar α))
    (start : Cursor) : Nat → Cursor → Prop
  | missing {needed cursor outcome failure} :
      Returns rules item cursor outcome → outcome.result = .error failure →
      outcome.cursor.mark ≤ cursor.pos → start.pos < outcome.cursor.mark →
      FallsShort rules item separator start (needed + 1) cursor
  | next {needed cursor outcome node between later separated} :
      Returns rules item cursor outcome → outcome.result = .ok node →
      SeparatorRun (Runs rules) separator outcome.cursor between later →
      between.result = .ok separated → between.cursor.pos ≠ cursor.pos →
      FallsShort rules item separator start needed between.cursor →
      FallsShort rules item separator start (needed + 1) cursor

-- Some repetition of the run falls short.
def Retreats (rules : Rules α) (steps : List (Step α)) : Prop :=
  ∃ item separator min start, .entered (.many item separator min) start ∈ steps ∧
    FallsShort rules item separator start min start

theorem Retreats.mono {rules : Rules α} {steps more : List (Step α)} (h : Retreats rules steps)
    (hsub : steps ⊆ more) : Retreats rules more := by
  obtain ⟨item, separator, min, start, hmem, hshort⟩ := h
  exact ⟨item, separator, min, start, hsub hmem, hshort⟩

-- The cursor is left at its mark or behind it, if it was there; only a failure can do otherwise,
-- and only by a retreat.
def KeepsMark {β : Type} (rules : Rules α) (cursor : Cursor) (outcome : Outcome β)
    (steps : List (Step α)) : Prop :=
  cursor.mark ≤ cursor.pos → outcome.cursor.mark ≤ outcome.cursor.pos ∨
    (∃ failure, outcome.result = .error failure) ∧ Retreats rules steps

namespace KeepsMark

variable {β γ : Type} {rules : Rules α} {cursor : Cursor} {outcome : Outcome β}
  {steps : List (Step α)}

theorem of_mark_le (h : outcome.cursor.mark ≤ outcome.cursor.pos) :
    KeepsMark rules cursor outcome steps := fun _ => .inl h

theorem mark_le_of_ok {value : β} (h : KeepsMark rules cursor outcome steps)
    (hresult : outcome.result = .ok value) (hmark : cursor.mark ≤ cursor.pos) :
    outcome.cursor.mark ≤ outcome.cursor.pos := by
  cases h hmark with
  | inl hle => exact hle
  | inr hretreat =>
      obtain ⟨failure, hfailure⟩ := hretreat.1
      simp [hresult] at hfailure

theorem widen {whole : Outcome γ} {more : List (Step α)} (h : KeepsMark rules cursor outcome steps)
    (hpos : whole.cursor.pos = outcome.cursor.pos) (hmark : whole.cursor.mark = outcome.cursor.mark)
    (hfails : (∃ failure, outcome.result = .error failure) →
      ∃ failure, whole.result = .error failure)
    (hsub : steps ⊆ more) : KeepsMark rules cursor whole more := by
  intro hle
  rw [hpos, hmark]
  exact (h hle).imp_right fun ⟨hfailure, hretreats⟩ => ⟨hfails hfailure, hretreats.mono hsub⟩

end KeepsMark

theorem attemptScan_mark (scanner : Scanner) (cursor : Cursor) :
    (attemptScan scanner cursor : Outcome (Node α)).cursor.mark = cursor.mark := by
  have hstart : (scanStart scanner cursor).mark = cursor.mark := by
    unfold scanStart
    split <;> rfl
  simp only [attemptScan]
  cases scanner.lex (α := α) cursor.policy (scanStart scanner cursor).rest with
  | ok lexeme => exact hstart
  | error miss => rfl

section Level

variable {rules : Rules α} {Tried : Grammar α → Cursor → Outcome (Node α) → List (Step α) → Prop}
  (hparts : ∀ {part cursor outcome steps}, Tried part cursor outcome steps →
    Runs rules part cursor outcome steps ∧ KeepsMark rules cursor outcome steps)

include hparts

theorem PartsRun.keepsMark {parts : List (Grammar α)} {cursor : Cursor}
    {outcome : Outcome (List (Node α))} {steps : List (Step α)}
    (h : PartsRun Tried parts cursor outcome steps) : KeepsMark rules cursor outcome steps := by
  induction h with
  | nil => exact fun hle => .inl hle
  | failed hpart =>
      exact (hparts hpart).2.widen rfl rfl (fun _ => ⟨_, rfl⟩) (List.Subset.refl _)
  | cons hpart hresult _ ih =>
      intro hle
      have hmiddle := (hparts hpart).2.mark_le_of_ok hresult hle
      refine (ih hmiddle).imp_right fun ⟨⟨failure, hfailure⟩, hretreats⟩ => ?_
      refine ⟨⟨failure, ?_⟩, hretreats.mono (List.subset_append_right _ _)⟩
      exact Outcome.map_result_eq_error_iff.mpr hfailure

theorem AnyRun.keepsMark {start : Cursor} {best : Option Failure} {alternatives : List (Grammar α)}
    {cursor : Cursor} {outcome : Outcome (Node α)} {steps : List (Step α)}
    (h : AnyRun Tried start best alternatives cursor outcome steps) :
    KeepsMark rules cursor outcome steps := by
  induction h with
  | exhausted => exact fun hle => .inl hle
  | matched hpart | committed hpart => exact (hparts hpart).2
  | next hpart _ hmark _ ih =>
      intro _
      refine (ih hmark).imp_right fun ⟨hfailure, hretreats⟩ => ?_
      exact ⟨hfailure, hretreats.mono (List.subset_append_right _ _)⟩

theorem SeparatorRun.keepsMark {separator : Option (Grammar α)} {cursor : Cursor}
    {outcome : Outcome (Node α)} {steps : List (Step α)}
    (h : SeparatorRun Tried separator cursor outcome steps) :
    KeepsMark rules cursor outcome steps := by
  cases h with
  | none => exact fun hle => .inl hle
  | some hpart => exact (hparts hpart).2

theorem ItemsRun.keepsMark_or_fallsShort {item : Grammar α} {separator : Option (Grammar α)}
    {start : Cursor} {min : Nat} {cursor : Cursor} {outcome : Outcome (List (Node α))}
    {steps : List (Step α)} (h : ItemsRun Tried item separator start min cursor outcome steps)
    (hle : cursor.mark ≤ cursor.pos) :
    outcome.cursor.mark ≤ outcome.cursor.pos ∨ (∃ failure, outcome.result = .error failure) ∧
      (Retreats rules steps ∨ FallsShort rules item separator start min cursor) := by
  have hcontract {part cursor outcome steps} (hpart : Tried part cursor outcome steps) :=
    (hparts hpart).1.returns.contract
  induction h with
  | committed hitem =>
      exact ((hparts hitem).2 hle).imp_right fun hretreat => ⟨⟨_, rfl⟩, .inl hretreat.2⟩
  | @short min cursor outcome steps failure hitem hresult hmark hmin =>
      by_cases hback : outcome.cursor.mark ≤ start.pos
      · exact .inl hback
      · obtain ⟨needed, rfl⟩ := Nat.exists_eq_add_of_lt hmin
        refine .inr ⟨⟨failure, rfl⟩, .inr ?_⟩
        exact .missing (hparts hitem).1.returns hresult hmark (Nat.lt_of_not_le hback)
  | ended hitem _ hmark => exact .inl (Nat.le_trans hmark (hcontract hitem).reaches.pos_le)
  | separatorCommitted hitem hresult hseparator =>
      have hmiddle := (hparts hitem).2.mark_le_of_ok hresult hle
      refine (hseparator.keepsMark hparts hmiddle).imp_right fun hretreat => ⟨⟨_, rfl⟩, .inl ?_⟩
      exact hretreat.2.mono (List.subset_append_right _ _)
  | separatorEnded _ _ hseparator _ hmark =>
      exact .inl (Nat.le_trans hmark (hseparator.contract hcontract).reaches.pos_le)
  | stuck hitem hresult hseparator hseparated =>
      have hmiddle := (hparts hitem).2.mark_le_of_ok hresult hle
      exact .inl ((hseparator.keepsMark hparts).mark_le_of_ok hseparated hmiddle)
  | @next min cursor outcome steps node between later separated others last hitem hresult
      hseparator hseparated hmoved _ ih =>
      have hmiddle := (hparts hitem).2.mark_le_of_ok hresult hle
      have hbetween := (hseparator.keepsMark hparts).mark_le_of_ok hseparated hmiddle
      refine (ih hbetween).imp_right fun ⟨⟨failure, hfailure⟩, hretreat⟩ => ?_
      refine ⟨⟨failure, Outcome.map_result_eq_error_iff.mpr hfailure⟩, ?_⟩
      refine hretreat.imp (fun h => h.mono (List.subset_append_right _ _)) fun hshort => ?_
      have hruns := hseparator.mono fun _ _ _ _ hpart => (hparts hpart).1
      cases min with
      | zero => nomatch hshort
      | succ needed =>
          exact .next (hparts hitem).1.returns hresult hruns hseparated hmoved hshort

theorem LevelRun.keepsMark {grammar : Grammar α} {cursor : Cursor} {outcome : Outcome (Node α)}
    {inner : List (Step α)} (h : LevelRun Tried rules grammar cursor outcome inner) :
    KeepsMark rules cursor outcome
      (.entered grammar cursor :: (inner ++ [.left grammar cursor outcome])) := by
  have hsub : inner ⊆ .entered grammar cursor :: (inner ++ [.left grammar cursor outcome]) :=
    List.Subset.trans (List.subset_append_left _ _) (List.subset_cons_self _ _)
  cases h with
  | scan =>
      refine fun hle => .inl ?_
      rw [attemptScan_mark]
      exact Nat.le_trans hle (attemptScan_contract _ cursor).reaches.pos_le
  | cut => exact fun hle => .inl (Nat.max_le.mpr ⟨hle, Nat.le_refl _⟩)
  | undefined => exact fun hle => .inl hle
  | seq hrun hresult =>
      exact fun hle => .inl ((hrun.keepsMark hparts).mark_le_of_ok hresult hle)
  | seqCommitted hrun => exact (hrun.keepsMark hparts).widen rfl rfl (fun _ => ⟨_, rfl⟩) hsub
  | any hrun => exact (hrun.keepsMark hparts).widen rfl rfl id hsub
  | many hrun =>
      refine fun hle => (hrun.keepsMark_or_fallsShort hparts hle).imp_right ?_
      rintro ⟨⟨failure, hfailure⟩, hretreat⟩
      refine ⟨⟨failure, Outcome.map_result_eq_error_iff.mpr hfailure⟩, ?_⟩
      cases hretreat with
      | inl hretreats => exact hretreats.mono hsub
      | inr hshort => exact ⟨_, _, _, _, List.mem_cons_self, hshort⟩
  | seqFailed _ _ hmark | maybeFailed _ _ hmark | labelFailed _ _ hmark =>
      exact .of_mark_le hmark
  | maybe hpart | maybeCommitted hpart | label hpart | labelCommitted hpart =>
      exact (hparts hpart).2.widen rfl rfl id hsub
  | named hpart | rule _ hpart =>
      exact (hparts hpart).2.widen rfl rfl id hsub
  | map hpart | bind hpart | merge hpart =>
      refine (hparts hpart).2.widen rfl rfl (fun ⟨failure, hfailure⟩ => ⟨failure, ?_⟩) hsub
      exact Outcome.map_result_eq_error_iff.mpr hfailure
  | tight hpart =>
      have hinner := (hparts hpart).2
      exact fun hle => hinner.widen rfl rfl id hsub hle

end Level

variable {rules : Rules α} {grammar : Grammar α} {cursor : Cursor} {outcome : Outcome (Node α)}
  {steps : List (Step α)}

theorem Runs.keepsMark (h : Runs rules grammar cursor outcome steps) :
    KeepsMark rules cursor outcome steps :=
  h.induction fun hlevel => hlevel.keepsMark fun hpart => hpart

-- What matches leaves the cursor at its mark or behind it.
theorem Returns.mark_le_of_ok {node : Node α} (h : Returns rules grammar cursor outcome)
    (hresult : outcome.result = .ok node) (hmark : cursor.mark ≤ cursor.pos) :
    outcome.cursor.mark ≤ outcome.cursor.pos := by
  obtain ⟨steps, hruns⟩ := h.exists_runs
  exact hruns.keepsMark.mark_le_of_ok hresult hmark

theorem SeparatorRun.mark_le_of_ok {separator : Option (Grammar α)} {node : Node α}
    (h : SeparatorRun (Runs rules) separator cursor outcome steps)
    (hresult : outcome.result = .ok node) (hmark : cursor.mark ≤ cursor.pos) :
    outcome.cursor.mark ≤ outcome.cursor.pos := by
  cases h with
  | none => exact hmark
  | some hruns => exact hruns.returns.mark_le_of_ok hresult hmark

theorem SeparatorRun.unique {separator : Option (Grammar α)} {other : Outcome (Node α)}
    {otherSteps : List (Step α)} (h : SeparatorRun (Runs rules) separator cursor outcome steps)
    (hother : SeparatorRun (Runs rules) separator cursor other otherSteps) : outcome = other := by
  cases h with
  | none =>
      cases hother
      rfl
  | some hruns =>
      cases hother with
      | some hotherRuns => exact (hruns.unique hotherRuns).1

-- A repetition that falls short fails back at its start, in front of its mark.
theorem FallsShort.back {item : Grammar α} {separator : Option (Grammar α)} {start : Cursor}
    {min : Nat} {outcome : Outcome (List (Node α))}
    (h : FallsShort rules item separator start min cursor)
    (hrun : ItemsRun (Runs rules) item separator start min cursor outcome steps) :
    (∃ failure, outcome.result = .error failure) ∧ outcome.cursor.toPlace = start.toPlace ∧
      start.pos < outcome.cursor.mark := by
  induction h generalizing outcome steps with
  | missing hitem hresult hmark hback =>
      cases hrun with
      | committed hother _ hlt =>
          cases hitem.unique hother.returns
          omega
      | short hother hfailure =>
          cases hitem.unique hother.returns
          exact ⟨⟨_, rfl⟩, rfl, hback⟩
      | separatorCommitted hother hok | separatorEnded hother hok | stuck hother hok
      | next hother hok =>
          cases hitem.unique hother.returns
          simp [hresult] at hok
  | next hitem hresult hseparator hseparated hmoved _ ih =>
      cases hrun with
      | committed hother hfailure | short hother hfailure =>
          cases hitem.unique hother.returns
          simp [hresult] at hfailure
      | separatorCommitted hother _ hbetween hfailure
      | separatorEnded hother _ hbetween hfailure =>
          cases hitem.unique hother.returns
          cases hseparator.unique hbetween
          simp [hseparated] at hfailure
      | stuck hother _ hbetween _ hstuck =>
          cases hitem.unique hother.returns
          cases hseparator.unique hbetween
          exact absurd hstuck hmoved
      | next hother _ hbetween _ _ hrest =>
          cases hitem.unique hother.returns
          cases hseparator.unique hbetween
          obtain ⟨⟨failure, hfailure⟩, hplace, hmark⟩ := ih hrest
          exact ⟨⟨failure, Outcome.map_result_eq_error_iff.mpr hfailure⟩, hplace, hmark⟩

-- A repetition that needs no more than one item does not fall short.
theorem FallsShort.two_le {item : Grammar α} {separator : Option (Grammar α)} {start : Cursor}
    {min : Nat} (h : FallsShort rules item separator start min start) : 2 ≤ min := by
  cases h with
  | missing _ _ hmark hback => omega
  | next _ _ _ _ _ hrest =>
      cases hrest with
      | missing | next => omega

-- Where a repetition of a run falls short, the whole run ends in front of the mark.
theorem Runs.pos_lt_mark_of_retreats (h : Runs rules grammar cursor outcome steps)
    (hretreats : Retreats rules steps) : outcome.cursor.pos < outcome.cursor.mark := by
  obtain ⟨item, separator, min, start, hentered, hshort⟩ := hretreats
  obtain ⟨inner, hleft⟩ := h.left_of_entered _ _ hentered
  obtain ⟨_, hinner⟩ := (h.returns_of_left _ _ _ hleft).exists_runs
  obtain ⟨_, hlevel, -⟩ := hinner.levelRun
  cases hlevel with
  | @many _ _ _ _ items _ hrun =>
      obtain ⟨⟨failure, hfailure⟩, hplace, hlt⟩ := hshort.back hrun
      have hending : (items.map Node.children).ending? =
          some ⟨failure, items.cursor.toPlace, items.cursor.mark⟩ :=
        Outcome.ending?_of_error (Outcome.map_result_eq_error_iff.mpr hfailure)
      have hlast := (h.final.last _ hleft _ ⟨hending, hlt⟩).1
      rw [Outcome.ending?_of_error (Outcome.result_of_ending? hlast)] at hlast
      simp only [Option.some.injEq, Ending.mk.injEq, true_and] at hlast
      rw [hlast.1, hlast.2, hplace]
      exact hlt

-- Repetitions that need no more than one item keep the cursor at its mark or behind it.
theorem Runs.mark_le_of_min_le_one (h : Runs rules grammar cursor outcome steps)
    (hmark : cursor.mark ≤ cursor.pos)
    (hmin : ∀ item separator min start, .entered (.many item separator min) start ∈ steps →
      min ≤ 1) :
    outcome.cursor.mark ≤ outcome.cursor.pos := by
  refine (h.keepsMark hmark).resolve_right ?_
  rintro ⟨-, item, separator, min, start, hentered, hshort⟩
  have hle := hmin item separator min start hentered
  have hge := hshort.two_le
  omega

-- The cursor is left at its mark or behind it exactly if no repetition falls short.
theorem mark_le_iff_not_retreats (h : Runs rules grammar cursor outcome steps)
    (hmark : cursor.mark ≤ cursor.pos) :
    outcome.cursor.mark ≤ outcome.cursor.pos ↔ ¬Retreats rules steps := by
  constructor
  · intro hle hretreats
    exact Nat.not_lt_of_le hle (h.pos_lt_mark_of_retreats hretreats)
  · intro hretreats
    exact (h.keepsMark hmark).resolve_right fun hretreat => hretreats hretreat.2

-- Two items are needed and there is one, with a cut at its end.
theorem retreats_over_first_item :
    let start := Cursor.ofInput ['a', 'b'] .ascii
    let stop : Outcome (Node Unit) := ⟨.error ⟨1, "a"⟩, { start with mark := 1 }, []⟩
    ∃ steps, (Runs {} (.many (.seq [.exact "a", .cut]) none 2) start stop steps ∧
      start.mark ≤ start.pos) ∧ stop.cursor.pos < stop.cursor.mark ∧ Retreats {} steps := by
  intro start stop
  have hreturns : Returns {} (.many (.seq [.exact "a", .cut]) none 2) start stop := ⟨3, rfl⟩
  obtain ⟨steps, hruns⟩ := hreturns.exists_runs
  have hmark : start.mark ≤ start.pos := by decide
  have hpassed : ¬stop.cursor.mark ≤ stop.cursor.pos := by decide
  refine ⟨steps, ⟨hruns, hmark⟩, by decide, ?_⟩
  rw [mark_le_iff_not_retreats hruns hmark, Classical.not_not] at hpassed
  exact hpassed

theorem not_forall_mark_le :
    ¬∀ (rules : Rules Unit) (grammar : Grammar Unit) (cursor : Cursor)
      (outcome : Outcome (Node Unit)), Returns rules grammar cursor outcome →
      cursor.mark ≤ cursor.pos → outcome.cursor.mark ≤ outcome.cursor.pos := by
  intro hall
  have hle := hall {} (.many (.seq [.exact "a", .cut]) none 2) (.ofInput ['a', 'b'] .ascii) _
    ⟨3, rfl⟩ (by decide)
  exact absurd hle (by decide)

end Descent.Grammar
