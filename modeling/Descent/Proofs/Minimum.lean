import Descent.Proofs.Yields

namespace Descent.Grammar

variable {α : Type}

-- Why a repetition tries no other item.
inductive Halt where
  -- the next item does not match
  | noItem
  -- no separator follows the last item
  | noSeparator
  -- the last item has consumed nothing, not even in its separator
  | stuck
  -- an item or a separator has failed for good
  | committed
  deriving DecidableEq, Repr

-- A repetition that has come to this cursor matches so many more items, and halts.
inductive Halts (rules : Rules α) (item : Grammar α) (separator : Option (Grammar α)) :
    Cursor → Nat → Halt → Prop
  | noItem {cursor failure stop} :
      Yields rules item cursor (.error failure) stop → stop.mark ≤ cursor.pos →
      Halts rules item separator cursor 0 .noItem
  | committed {cursor failure stop} :
      Yields rules item cursor (.error failure) stop → cursor.pos < stop.mark →
      Halts rules item separator cursor 0 .committed
  | noSeparator {cursor node middle failure stop} :
      Yields rules item cursor (.ok node) middle →
      Separates rules separator middle (.error failure) stop → stop.mark ≤ middle.pos →
      Halts rules item separator cursor 1 .noSeparator
  | separatorCommitted {cursor node middle failure stop} :
      Yields rules item cursor (.ok node) middle →
      Separates rules separator middle (.error failure) stop → middle.pos < stop.mark →
      Halts rules item separator cursor 1 .committed
  | stuck {cursor node middle separated stop} :
      Yields rules item cursor (.ok node) middle →
      Separates rules separator middle (.ok separated) stop → stop.pos = cursor.pos →
      Halts rules item separator cursor 1 .stuck
  | next {cursor node middle separated behind count halt} :
      Yields rules item cursor (.ok node) middle →
      Separates rules separator middle (.ok separated) behind → behind.pos ≠ cursor.pos →
      Halts rules item separator behind count halt →
      Halts rules item separator cursor (count + 1) halt

-- Items are still needed when the repetition halts, but it is not for want of an item.
def EndsEarly (rules : Rules α) (item : Grammar α) (separator : Option (Grammar α)) (min : Nat)
    (cursor : Cursor) : Prop :=
  ∃ count halt, Halts rules item separator cursor count halt ∧
    (halt = .noSeparator ∨ halt = .stuck) ∧ count < min

-- What becomes of a repetition from `start` that matches so many items and halts. Only where an
-- item is missing it is asked how many items are needed.
def Concludes (start : Cursor) (min count : Nat) (outcome : Outcome (List (Node α))) :
    Halt → Prop
  | .noItem =>
    if count < min then
      (∃ failure, outcome.result = .error failure) ∧ outcome.cursor.toPlace = start.toPlace
    else ∃ nodes, outcome.result = .ok nodes ∧ nodes.length = count
  | .noSeparator | .stuck => ∃ nodes, outcome.result = .ok nodes ∧ nodes.length = count
  | .committed => ∃ failure, outcome.result = .error failure

section Halting

variable {rules : Rules α} {item : Grammar α} {separator : Option (Grammar α)}
  {start cursor stop : Cursor} {min count : Nat} {halt : Halt}

-- An item that has matched goes before all others.
theorem Concludes.cons {outcome : Outcome (List (Node α))} {node : Node α} {events : List Event}
    (h : Concludes start (min - 1) count outcome halt) :
    Concludes start min (count + 1) ((outcome.map (node :: ·)).after events) halt := by
  have hok : (∃ nodes, outcome.result = .ok nodes ∧ nodes.length = count) →
      ∃ nodes, ((outcome.map (node :: ·)).after events).result = .ok nodes ∧
        nodes.length = count + 1 := by
    rintro ⟨nodes, hresult, rfl⟩
    exact ⟨node :: nodes, Outcome.map_result_eq_ok_iff.mpr ⟨nodes, hresult, rfl⟩, rfl⟩
  have herror : (∃ failure, outcome.result = .error failure) →
      ∃ failure, ((outcome.map (node :: ·)).after events).result = .error failure := by
    rintro ⟨failure, hresult⟩
    exact ⟨failure, Outcome.map_result_eq_error_iff.mpr hresult⟩
  cases halt with
  | noItem =>
      have hneeded : count + 1 < min ↔ count < min - 1 := by omega
      simp only [Concludes, hneeded] at h ⊢
      split at h
      · rename_i hlt
        rw [if_pos hlt]
        exact ⟨herror h.1, h.2⟩
      · rename_i hge
        rw [if_neg hge]
        exact hok h
  | noSeparator | stuck => exact hok h
  | committed => exact herror h

-- Too few items are yielded only if the repetition ends early.
theorem Concludes.of_ok {outcome : Outcome (List (Node α))} {nodes : List (Node α)}
    (h : Concludes start min count outcome halt) (hresult : outcome.result = .ok nodes) :
    nodes.length = count ∧ (count < min → halt = .noSeparator ∨ halt = .stuck) := by
  have hlength (hok : ∃ found, outcome.result = .ok found ∧ found.length = count) :
      nodes.length = count := by
    obtain ⟨found, hfound, hcount⟩ := hok
    cases hfound.symm.trans hresult
    exact hcount
  cases halt with
  | noItem =>
      by_cases hlt : count < min
      · rw [Concludes, if_pos hlt] at h
        obtain ⟨⟨failure, hfailure⟩, -⟩ := h
        cases hfailure.symm.trans hresult
      · rw [Concludes, if_neg hlt] at h
        exact ⟨hlength h, fun hneeded => absurd hneeded hlt⟩
  | noSeparator => exact ⟨hlength h, fun _ => .inl rfl⟩
  | stuck => exact ⟨hlength h, fun _ => .inr rfl⟩
  | committed =>
      obtain ⟨failure, hfailure⟩ := h
      cases hfailure.symm.trans hresult

theorem Concludes.ok_of_early {outcome : Outcome (List (Node α))}
    (h : Concludes start min count outcome halt) (hearly : halt = .noSeparator ∨ halt = .stuck) :
    ∃ nodes, outcome.result = .ok nodes ∧ nodes.length = count := by
  cases hearly with
  | inl hhalt | inr hhalt =>
      rw [hhalt] at h
      exact h

theorem ItemsRun.exists_halts {outcome : Outcome (List (Node α))} {steps : List (Step α)}
    (h : ItemsRun (Runs rules) item separator start min cursor outcome steps) :
    ∃ count halt, Halts rules item separator cursor count halt ∧
      Concludes start min count outcome halt := by
  induction h with
  | committed hitem hresult hmark =>
      exact ⟨0, .committed, .committed (hresult ▸ hitem.yields) hmark, _, rfl⟩
  | short hitem hresult hmark hmin =>
      refine ⟨0, .noItem, .noItem (hresult ▸ hitem.yields) hmark, ?_⟩
      rw [Concludes, if_pos hmin]
      exact ⟨⟨_, rfl⟩, rfl⟩
  | ended hitem hresult hmark =>
      refine ⟨0, .noItem, .noItem (hresult ▸ hitem.yields) hmark, ?_⟩
      rw [Concludes, if_neg (Nat.lt_irrefl 0)]
      exact ⟨[], rfl, rfl⟩
  | separatorCommitted hitem hresult hseparator hseparated hmark =>
      have hyields := hresult ▸ hitem.yields
      have hseparates := hseparated ▸ hseparator.separates
      exact ⟨1, .committed, .separatorCommitted hyields hseparates hmark, _, rfl⟩
  | separatorEnded hitem hresult hseparator hseparated hmark =>
      have hyields := hresult ▸ hitem.yields
      have hseparates := hseparated ▸ hseparator.separates
      exact ⟨1, .noSeparator, .noSeparator hyields hseparates hmark, _, rfl, rfl⟩
  | stuck hitem hresult hseparator hseparated hstuck =>
      have hyields := hresult ▸ hitem.yields
      have hseparates := hseparated ▸ hseparator.separates
      exact ⟨1, .stuck, .stuck hyields hseparates hstuck, _, rfl, rfl⟩
  | next hitem hresult hseparator hseparated hmoved _ ih =>
      obtain ⟨count, halt, hhalts, hconcludes⟩ := ih
      have hyields := hresult ▸ hitem.yields
      have hseparates := hseparated ▸ hseparator.separates
      exact ⟨count + 1, halt, .next hyields hseparates hmoved hhalts, hconcludes.cons⟩

theorem Halts.exists_itemsRun (h : Halts rules item separator cursor count halt) (start : Cursor)
    (min : Nat) :
    ∃ outcome steps, ItemsRun (Runs rules) item separator start min cursor outcome steps ∧
      Concludes start min count outcome halt := by
  induction h generalizing min with
  | noItem hitem hmark =>
      obtain ⟨_, _, hruns⟩ := hitem.exists_runs
      cases min with
      | zero =>
          refine ⟨_, _, .ended hruns rfl hmark, ?_⟩
          rw [Concludes, if_neg (Nat.lt_irrefl 0)]
          exact ⟨[], rfl, rfl⟩
      | succ min =>
          refine ⟨_, _, .short hruns rfl hmark (Nat.zero_lt_succ min), ?_⟩
          rw [Concludes, if_pos (Nat.zero_lt_succ min)]
          exact ⟨⟨_, rfl⟩, rfl⟩
  | committed hitem hmark =>
      obtain ⟨_, _, hruns⟩ := hitem.exists_runs
      exact ⟨_, _, .committed hruns rfl hmark, _, rfl⟩
  | noSeparator hitem hseparates hmark =>
      obtain ⟨_, _, hruns⟩ := hitem.exists_runs
      obtain ⟨_, _, hseparator⟩ := hseparates.exists_separatorRun
      exact ⟨_, _, .separatorEnded hruns rfl hseparator rfl hmark, _, rfl, rfl⟩
  | separatorCommitted hitem hseparates hmark =>
      obtain ⟨_, _, hruns⟩ := hitem.exists_runs
      obtain ⟨_, _, hseparator⟩ := hseparates.exists_separatorRun
      exact ⟨_, _, .separatorCommitted hruns rfl hseparator rfl hmark, _, rfl⟩
  | stuck hitem hseparates hstuck =>
      obtain ⟨_, _, hruns⟩ := hitem.exists_runs
      obtain ⟨_, _, hseparator⟩ := hseparates.exists_separatorRun
      exact ⟨_, _, .stuck hruns rfl hseparator rfl hstuck, _, rfl, rfl⟩
  | next hitem hseparates hmoved _ ih =>
      obtain ⟨_, _, hruns⟩ := hitem.exists_runs
      obtain ⟨_, _, hseparator⟩ := hseparates.exists_separatorRun
      obtain ⟨_, _, hrest, hconcludes⟩ := ih (min - 1)
      exact ⟨_, _, .next hruns rfl hseparator rfl hmoved hrest, hconcludes.cons⟩

end Halting

variable {rules : Rules α} {item : Grammar α} {separator : Option (Grammar α)} {min : Nat}
  {cursor : Cursor} {outcome : Outcome (Node α)}

theorem Returns.exists_halts (h : Returns rules (.many item separator min) cursor outcome) :
    ∃ count halt items, Halts rules item separator cursor count halt ∧
      Concludes cursor min count items halt ∧ outcome = items.map .children := by
  obtain ⟨steps, hruns⟩ := h.exists_runs
  obtain ⟨_, hlevel, -⟩ := hruns.levelRun
  cases hlevel with
  | many hrun =>
      obtain ⟨count, halt, hhalts, hconcludes⟩ := hrun.exists_halts
      exact ⟨count, halt, _, hhalts, hconcludes, rfl⟩

-- However the repetition halts, it comes to the same.
theorem Returns.concludes (h : Returns rules (.many item separator min) cursor outcome)
    {count : Nat} {halt : Halt} (hhalts : Halts rules item separator cursor count halt) :
    ∃ items, Concludes cursor min count items halt ∧ outcome = items.map .children := by
  obtain ⟨items, steps, hrun, hconcludes⟩ := hhalts.exists_itemsRun cursor min
  obtain ⟨_, hruns⟩ := exists_runs_of_level ⟨steps, .many hrun⟩
  exact ⟨items, hconcludes, h.unique hruns.returns⟩

-- A repetition yields as many items as are needed, and goes back to its start where it cannot,
-- unless it ends early.
theorem reaches_min_iff_not_endsEarly
    (h : Returns rules (.many item separator min) cursor outcome) :
    ((∀ node, outcome.result = .ok node →
        ∃ items, node = .children items ∧ min ≤ items.length) ∧
      ∀ count halt, Halts rules item separator cursor count halt → halt ≠ .committed →
        count < min →
        (∃ failure, outcome.result = .error failure) ∧
          outcome.cursor.toPlace = cursor.toPlace) ↔
      ¬EndsEarly rules item separator min cursor := by
  constructor
  · rintro ⟨-, hback⟩ ⟨count, halt, hhalts, hearly, hlt⟩
    have hhalt : halt ≠ .committed := by
      rintro rfl
      simp at hearly
    obtain ⟨⟨failure, hfailure⟩, -⟩ := hback count halt hhalts hhalt hlt
    obtain ⟨items, hconcludes, rfl⟩ := h.concludes hhalts
    obtain ⟨nodes, hresult, -⟩ := hconcludes.ok_of_early hearly
    cases (Outcome.map_result_eq_error_iff.mp hfailure).symm.trans hresult
  · intro hnot
    refine ⟨fun node hnode => ?_, fun count halt hhalts hhalt hlt => ?_⟩
    · obtain ⟨count, halt, items, hhalts, hconcludes, rfl⟩ := h.exists_halts
      obtain ⟨nodes, hresult, rfl⟩ := Outcome.map_result_eq_ok_iff.mp hnode
      obtain ⟨hlength, hearly⟩ := hconcludes.of_ok hresult
      refine ⟨nodes, rfl, Nat.le_of_not_lt fun hlt => hnot ?_⟩
      rw [hlength] at hlt
      exact ⟨count, halt, hhalts, hearly hlt, hlt⟩
    · obtain ⟨items, hconcludes, rfl⟩ := h.concludes hhalts
      cases halt with
      | noItem =>
          rw [Concludes, if_pos hlt] at hconcludes
          obtain ⟨⟨failure, hfailure⟩, hplace⟩ := hconcludes
          exact ⟨⟨failure, Outcome.map_result_eq_error_iff.mpr hfailure⟩, hplace⟩
      | noSeparator => exact absurd ⟨count, _, hhalts, .inl rfl, hlt⟩ hnot
      | stuck => exact absurd ⟨count, _, hhalts, .inr rfl, hlt⟩ hnot
      | committed => exact absurd rfl hhalt

-- Two items are needed and there is one, with no comma behind it.
theorem ends_early_without_comma :
    let start := Cursor.ofInput ['a', ';'] .ascii
    let stop : Outcome (Node Unit) :=
      ⟨.ok (.children [.token "a"]), { start with pos := 1, rest := [';'] }, []⟩
    let item : Grammar Unit := .exact "a"
    let separator : Grammar Unit := .exact ","
    Returns {} (.many item (some separator) 2) start stop ∧
      (∃ items, stop.result = .ok (.children items) ∧ items.length < 2) ∧
      EndsEarly {} item (some separator) 2 start := by
  intro start stop item separator
  have hreturns : Returns {} (.many item (some separator) 2) start stop := ⟨2, rfl⟩
  refine ⟨hreturns, ⟨[.token "a"], rfl, by decide⟩, Classical.not_not.mp fun hnot => ?_⟩
  obtain ⟨hok, -⟩ := (reaches_min_iff_not_endsEarly hreturns).mpr hnot
  obtain ⟨items, hitems, hmin⟩ := hok (.children [.token "a"]) rfl
  cases hitems
  exact absurd hmin (by decide)

theorem not_forall_min_le_length :
    ¬∀ (rules : Rules Unit) (item : Grammar Unit) (separator : Option (Grammar Unit)) (min : Nat)
      (cursor : Cursor) (outcome : Outcome (Node Unit)) (items : List (Node Unit)),
      Returns rules (.many item separator min) cursor outcome →
      outcome.result = .ok (.children items) → min ≤ items.length := by
  intro hall
  have hle := hall {} (.exact "a") (some (.exact ",")) 2 (.ofInput ['a', ';'] .ascii) _
    [.token "a"] ⟨2, rfl⟩ rfl
  exact absurd hle (by decide)

end Descent.Grammar
