import Descent.Proofs.Levels
import Descent.Proofs.Remainder
import Mathlib.Data.Finset.Prod
import Mathlib.Data.Fintype.Card

namespace Descent

theorem Place.Reaches.eq_of_rest_length_eq {start place other : Place} (h : start.Reaches place)
    (hother : start.Reaches other) (hlength : place.rest.length = other.rest.length) :
    place = other := by
  obtain ⟨text, hrest, hpos⟩ := h
  obtain ⟨text', hrest', hpos'⟩ := hother
  obtain ⟨rfl, htail⟩ := List.append_inj' (hrest.symm.trans hrest') hlength
  cases place
  cases other
  simp only [Place.mk.injEq]
  exact ⟨hpos.trans hpos'.symm, htail⟩

namespace Cursor

-- The cursor has been moved on from `start`, and not in front of its mark. Skipping may have been
-- turned off.
structure Inside (start cursor : Cursor) : Prop where
  place : start.toPlace.Reaches cursor.toPlace
  input : cursor.input = start.input
  policy : cursor.policy = start.policy
  mark_le : cursor.mark ≤ cursor.pos

namespace Inside

variable {start middle cursor other stop : Cursor}

theorem refl (h : cursor.mark ≤ cursor.pos) : cursor.Inside cursor := ⟨.refl _, rfl, rfl, h⟩

theorem trans (h : start.Inside middle) (h' : middle.Inside cursor) : start.Inside cursor where
  place := h.place.trans h'.place
  input := h'.input.trans h.input
  policy := h'.policy.trans h.policy
  mark_le := h'.mark_le

theorem of_reaches (h : start.Inside cursor) (hreaches : cursor.Reaches stop)
    (hmark : stop.mark ≤ stop.pos) : start.Inside stop where
  place := h.place.trans hreaches.place
  input := hreaches.input.trans h.input
  policy := hreaches.policy.trans h.policy
  mark_le := hmark

theorem back (h : start.Inside cursor) (hreaches : cursor.Reaches stop)
    (hmark : stop.mark ≤ start.pos) : start.Inside (stop.rewind start.toPlace) where
  place := .refl _
  input := hreaches.input.trans h.input
  policy := hreaches.policy.trans h.policy
  mark_le := hmark

-- Where as much lies ahead, the cursors are the same but for what is not seen from there.
theorem since_eq (h : start.Inside cursor) (hother : start.Inside other)
    (hlength : cursor.rest.length = other.rest.length) (hskip : cursor.autoSkip = other.autoSkip) :
    cursor.since cursor.pos = other.since other.pos := by
  have hplace := h.place.eq_of_rest_length_eq hother.place hlength
  have hpos : cursor.pos = other.pos := congrArg Place.pos hplace
  have hrest : cursor.rest = other.rest := congrArg Place.rest hplace
  have hmark : cursor.mark - cursor.pos = 0 := Nat.sub_eq_zero_of_le h.mark_le
  have hmark' : other.mark - other.pos = 0 := Nat.sub_eq_zero_of_le hother.mark_le
  rw [since, since, hmark, hmark', h.input, hother.input, h.policy, hother.policy, hskip, hrest,
    Nat.sub_self, Nat.sub_self, hpos]

end Inside

end Cursor

namespace Grammar

variable {α : Type} {rules : Rules α}

theorem Returns.inside {part : Grammar α} {start cursor : Cursor} {outcome : Outcome (Node α)}
    {node : Node α} (h : Returns rules part cursor outcome) (hresult : outcome.result = .ok node)
    (hcursor : start.Inside cursor) : start.Inside outcome.cursor :=
  hcursor.of_reaches h.contract.reaches (h.mark_le_of_ok hresult hcursor.mark_le)

theorem SeparatorRun.inside {separator : Option (Grammar α)} {start cursor : Cursor}
    {outcome : Outcome (Node α)} {steps : List (Step α)} {node : Node α}
    (h : SeparatorRun (Runs rules) separator cursor outcome steps)
    (hresult : outcome.result = .ok node) (hcursor : start.Inside cursor) :
    start.Inside outcome.cursor :=
  hcursor.of_reaches (h.contract fun hpart => hpart.returns.contract).reaches
    (h.mark_le_of_ok hresult hcursor.mark_le)

-- What is tried one level further down.
def IsPart (rules : Rules α) (grammar part : Grammar α) : Prop :=
  part.depth < grammar.depth ∨ ∃ name, grammar = .rule name ∧ rules.definition? name = some part

section Parts

variable {Tried Tried' : Grammar α → Cursor → Outcome (Node α) → List (Step α) → Prop}
  {start : Cursor}

theorem SeparatorRun.mono_inside {separator : Option (Grammar α)} {cursor : Cursor}
    {outcome : Outcome (Node α)} {steps : List (Step α)}
    (h : SeparatorRun Tried separator cursor outcome steps) (hcursor : start.Inside cursor)
    (hmono : ∀ part ∈ separator, ∀ cursor outcome steps, start.Inside cursor →
      Tried part cursor outcome steps → Tried' part cursor outcome steps) :
    SeparatorRun Tried' separator cursor outcome steps := by
  cases h with
  | none => exact .none
  | some hpart => exact .some (hmono _ rfl _ _ _ hcursor hpart)

variable
  (hruns : ∀ part cursor outcome steps, Tried part cursor outcome steps →
    Runs rules part cursor outcome steps)

include hruns

theorem PartsRun.mono_inside {parts : List (Grammar α)} {cursor : Cursor}
    {outcome : Outcome (List (Node α))} {steps : List (Step α)}
    (h : PartsRun Tried parts cursor outcome steps) (hcursor : start.Inside cursor)
    (hmono : ∀ part ∈ parts, ∀ cursor outcome steps, start.Inside cursor →
      Tried part cursor outcome steps → Tried' part cursor outcome steps) :
    PartsRun Tried' parts cursor outcome steps := by
  induction h with
  | nil => exact .nil
  | failed hpart hresult =>
      obtain ⟨hfirst, -⟩ := List.forall_mem_cons.mp hmono
      exact .failed (hfirst _ _ _ hcursor hpart) hresult
  | cons hpart hresult _ ih =>
      obtain ⟨hfirst, hothers⟩ := List.forall_mem_cons.mp hmono
      have hmiddle := (hruns _ _ _ _ hpart).returns.inside hresult hcursor
      exact .cons (hfirst _ _ _ hcursor hpart) hresult (ih hmiddle hothers)

theorem AnyRun.mono_inside {best : Option Failure} {alternatives : List (Grammar α)}
    {cursor : Cursor} {outcome : Outcome (Node α)} {steps : List (Step α)}
    (h : AnyRun Tried start best alternatives cursor outcome steps) (hcursor : start.Inside cursor)
    (hmono : ∀ part ∈ alternatives, ∀ cursor outcome steps, start.Inside cursor →
      Tried part cursor outcome steps → Tried' part cursor outcome steps) :
    AnyRun Tried' start best alternatives cursor outcome steps := by
  induction h with
  | exhausted => exact .exhausted
  | matched hpart hresult =>
      obtain ⟨hfirst, -⟩ := List.forall_mem_cons.mp hmono
      exact .matched (hfirst _ _ _ hcursor hpart) hresult
  | committed hpart hresult hmark =>
      obtain ⟨hfirst, -⟩ := List.forall_mem_cons.mp hmono
      exact .committed (hfirst _ _ _ hcursor hpart) hresult hmark
  | next hpart hresult hmark _ ih =>
      obtain ⟨hfirst, hothers⟩ := List.forall_mem_cons.mp hmono
      have hback := hcursor.back (hruns _ _ _ _ hpart).returns.contract.reaches hmark
      exact .next (hfirst _ _ _ hcursor hpart) hresult hmark (ih hback hothers)

theorem ItemsRun.mono_inside {item : Grammar α} {separator : Option (Grammar α)} {origin : Cursor}
    {min : Nat} {cursor : Cursor} {outcome : Outcome (List (Node α))} {steps : List (Step α)}
    (h : ItemsRun Tried item separator origin min cursor outcome steps)
    (hcursor : start.Inside cursor)
    (hitem : ∀ cursor outcome steps, start.Inside cursor → Tried item cursor outcome steps →
      Tried' item cursor outcome steps)
    (hseparator : ∀ part ∈ separator, ∀ cursor outcome steps, start.Inside cursor →
      Tried part cursor outcome steps → Tried' part cursor outcome steps) :
    ItemsRun Tried' item separator origin min cursor outcome steps := by
  induction h with
  | committed hpart hresult hmark =>
      exact .committed (hitem _ _ _ hcursor hpart) hresult hmark
  | short hpart hresult hmark hmin =>
      exact .short (hitem _ _ _ hcursor hpart) hresult hmark hmin
  | ended hpart hresult hmark => exact .ended (hitem _ _ _ hcursor hpart) hresult hmark
  | separatorCommitted hpart hresult hbetween hseparated hmark =>
      have hmiddle := (hruns _ _ _ _ hpart).returns.inside hresult hcursor
      exact .separatorCommitted (hitem _ _ _ hcursor hpart) hresult
        (hbetween.mono_inside hmiddle hseparator) hseparated hmark
  | separatorEnded hpart hresult hbetween hseparated hmark =>
      have hmiddle := (hruns _ _ _ _ hpart).returns.inside hresult hcursor
      exact .separatorEnded (hitem _ _ _ hcursor hpart) hresult
        (hbetween.mono_inside hmiddle hseparator) hseparated hmark
  | stuck hpart hresult hbetween hseparated hstuck =>
      have hmiddle := (hruns _ _ _ _ hpart).returns.inside hresult hcursor
      exact .stuck (hitem _ _ _ hcursor hpart) hresult
        (hbetween.mono_inside hmiddle hseparator) hseparated hstuck
  | next hpart hresult hbetween hseparated hmoved _ ih =>
      have hmiddle := (hruns _ _ _ _ hpart).returns.inside hresult hcursor
      have hbehind := (hbetween.mono hruns).inside hseparated hmiddle
      exact .next (hitem _ _ _ hcursor hpart) hresult
        (hbetween.mono_inside hmiddle hseparator) hseparated hmoved (ih hbehind)

theorem LevelRun.mono_inside {grammar : Grammar α} {outcome : Outcome (Node α)}
    {steps : List (Step α)} (h : LevelRun Tried rules grammar start outcome steps)
    (hmark : start.mark ≤ start.pos)
    (hmono : ∀ part, IsPart rules grammar part → ∀ cursor outcome steps, start.Inside cursor →
      Tried part cursor outcome steps → Tried' part cursor outcome steps) :
    LevelRun Tried' rules grammar start outcome steps := by
  have hstart : start.Inside start := .refl hmark
  have hone {part outcome steps} (hdepth : part.depth < grammar.depth)
      (hpart : Tried part start outcome steps) : Tried' part start outcome steps :=
    hmono part (.inl hdepth) start outcome steps hstart hpart
  have hall {parts} (hdepth : depthAll parts < grammar.depth) (part : Grammar α)
      (hmem : part ∈ parts) :=
    hmono part (.inl (Nat.lt_of_le_of_lt (depth_le_depthAll hmem) hdepth))
  cases h with
  | scan => exact .scan
  | cut => exact .cut
  | seq hrun hresult =>
      exact .seq (hrun.mono_inside hruns hstart (hall (Nat.lt_succ_self _))) hresult
  | seqCommitted hrun hresult hmark =>
      exact .seqCommitted (hrun.mono_inside hruns hstart (hall (Nat.lt_succ_self _))) hresult hmark
  | seqFailed hrun hresult hmark =>
      exact .seqFailed (hrun.mono_inside hruns hstart (hall (Nat.lt_succ_self _))) hresult hmark
  | any hrun => exact .any (hrun.mono_inside hruns hstart (hall (Nat.lt_succ_self _)))
  | many hrun =>
      refine .many (hrun.mono_inside hruns hstart ?_ ?_)
      · exact hmono _ (.inl (Nat.lt_succ_of_le (Nat.le_max_left _ _)))
      · rintro part ⟨⟩
        exact hmono _ (.inl (Nat.lt_succ_of_le (Nat.le_max_right _ _)))
  | maybe hpart hresult => exact .maybe (hone (Nat.lt_succ_self _) hpart) hresult
  | maybeCommitted hpart hresult hmark =>
      exact .maybeCommitted (hone (Nat.lt_succ_self _) hpart) hresult hmark
  | maybeFailed hpart hresult hmark =>
      exact .maybeFailed (hone (Nat.lt_succ_self _) hpart) hresult hmark
  | label hpart hresult => exact .label (hone (Nat.lt_succ_self _) hpart) hresult
  | labelCommitted hpart hresult hmark =>
      exact .labelCommitted (hone (Nat.lt_succ_self _) hpart) hresult hmark
  | labelFailed hpart hresult hmark =>
      exact .labelFailed (hone (Nat.lt_succ_self _) hpart) hresult hmark
  | named hpart => exact .named (hone (Nat.lt_succ_self _) hpart)
  | map hpart => exact .map (hone (Nat.lt_succ_self _) hpart)
  | bind hpart => exact .bind (hone (Nat.lt_succ_self _) hpart)
  | merge hpart => exact .merge (hone (Nat.lt_succ_self _) hpart)
  | tight hpart =>
      have htight : start.Inside (start.withAutoSkip false) := ⟨.refl _, rfl, rfl, hmark⟩
      exact .tight (hmono _ (.inl (Nat.lt_succ_self _)) _ _ _ htight hpart)
  | undefined hdefinition => exact .undefined hdefinition
  | rule hdefinition hpart =>
      exact .rule hdefinition (hmono _ (.inr ⟨_, rfl, hdefinition⟩) _ _ _ hstart hpart)

end Parts

-- So many levels are enough.
def Settles (rules : Rules α) (levels : Nat) (grammar : Grammar α) (cursor : Cursor) : Prop :=
  (eval rules levels grammar cursor).isSome

namespace Settles

variable {levels more : Nat} {grammar : Grammar α} {start cursor other : Cursor}

theorem iff_exists_seen : Settles rules levels grammar cursor ↔
    ∃ outcome steps, (watch rules levels grammar cursor).seen = some (outcome, steps) := by
  rw [Settles, ← erase_watch, Watched.erase, Option.isSome_map, Option.isSome_iff_exists,
    Prod.exists]

theorem mono (h : Settles rules levels grammar cursor) (hle : levels ≤ more) :
    Settles rules more grammar cursor := by
  obtain ⟨outcome, steps, hseen⟩ := iff_exists_seen.mp h
  exact iff_exists_seen.mpr ⟨outcome, steps, seen_watch_mono hle hseen⟩

theorem since_iff : Settles rules levels grammar (cursor.since cursor.pos) ↔
    Settles rules levels grammar cursor := by
  rw [Settles, ← eval_since (Nat.le_refl cursor.pos), Option.isSome_map, Settles]

theorem of_inside (h : Settles rules levels grammar cursor) (hcursor : start.Inside cursor)
    (hother : start.Inside other) (hlength : cursor.rest.length = other.rest.length)
    (hskip : cursor.autoSkip = other.autoSkip) : Settles rules levels grammar other := by
  rw [← since_iff, ← hcursor.since_eq hother hlength hskip, since_iff]
  exact h

-- However many levels there are beyond that, the same is seen.
theorem seen_eq {outcome : Outcome (Node α)} {steps : List (Step α)}
    (h : Settles rules more grammar cursor)
    (hseen : (watch rules levels grammar cursor).seen = some (outcome, steps)) :
    (watch rules more grammar cursor).seen = some (outcome, steps) := by
  obtain ⟨other, otherSteps, hother⟩ := iff_exists_seen.mp h
  have hruns : Runs rules grammar cursor outcome steps := ⟨levels, hseen⟩
  obtain ⟨rfl, rfl⟩ := hruns.unique ⟨more, hother⟩
  exact hother

-- Other numbers of levels are enough for a grammar if they are for the parts that are tried.
theorem of_parts (h : Settles rules (levels + 1) grammar cursor) (hmark : cursor.mark ≤ cursor.pos)
    (hparts : ∀ part start, IsPart rules grammar part → cursor.Inside start →
      Settles rules levels part start → Settles rules more part start) :
    Settles rules (more + 1) grammar cursor := by
  obtain ⟨outcome, steps, hseen⟩ := iff_exists_seen.mp h
  obtain ⟨inner, hinner, -⟩ := seen_watch_succ_iff.mp hseen
  have hlevel := levelRun_of_seen (fun _ _ _ _ hpart => hpart) hinner
  have hlevel' : LevelRun (fun part start outcome steps =>
      (watch rules more part start).seen = some (outcome, steps)) rules grammar cursor outcome
      inner := by
    refine hlevel.mono_inside (fun _ _ _ _ hpart => ⟨levels, hpart⟩) hmark ?_
    intro part hpart start outcome steps hstart htried
    have hsettles : Settles rules levels part start := iff_exists_seen.mpr ⟨_, _, htried⟩
    exact (hparts part start hpart hstart hsettles).seen_eq htried
  have hcontract {part start outcome steps}
      (htried : (watch rules more part start).seen = some (outcome, steps)) :
      outcome.Contract start := by
    have hruns : Runs rules part start outcome steps := ⟨more, htried⟩
    exact hruns.returns.contract
  have hseen' := seen_attemptLevel (fun _ _ _ _ hpart => hpart) hcontract hlevel'
  exact iff_exists_seen.mpr ⟨outcome, _, seen_watch_succ_iff.mpr ⟨inner, hseen', rfl⟩⟩

end Settles

section Visits

-- The rules that can be come to from `start`, with as much of the text ahead as `start` has at
-- most, and with or without skipping.
def visits (rules : Rules α) (start : Cursor) : Finset (String × Nat × Bool) :=
  (rules.definitions.map Prod.fst).toFinset ×ˢ Finset.range (start.rest.length + 1) ×ˢ Finset.univ

theorem card_visits_le (rules : Rules α) (start : Cursor) :
    (visits rules start).card ≤ 2 * (start.rest.length + 1) * rules.definitions.length := by
  have hnames := (rules.definitions.map Prod.fst).toFinset_card_le
  rw [List.length_map] at hnames
  rw [visits, Finset.card_product, Finset.card_product, Finset.card_range, Finset.card_univ,
    Fintype.card_bool, Nat.mul_comm, Nat.mul_comm (start.rest.length + 1)]
  exact Nat.mul_le_mul_left _ hnames

open Classical in
-- The visits for which so many levels are enough.
noncomputable def settled (rules : Rules α) (start : Cursor) (levels : Nat) :
    Finset (String × Nat × Bool) :=
  (visits rules start).filter fun (name, ahead, autoSkip) =>
    ∃ cursor, start.Inside cursor ∧ cursor.rest.length = ahead ∧ cursor.autoSkip = autoSkip ∧
      Settles rules levels (.rule name) cursor

variable {levels : Nat} {name : String} {definition : Grammar α} {grammar : Grammar α}
  {start cursor : Cursor}

theorem mem_settled_iff (hdefinition : rules.definition? name = some definition)
    (hcursor : start.Inside cursor) :
    (name, cursor.rest.length, cursor.autoSkip) ∈ settled rules start levels ↔
      Settles rules levels (.rule name) cursor := by
  have hvisit : (name, cursor.rest.length, cursor.autoSkip) ∈ visits rules start := by
    have hmem := List.mem_map_of_mem (f := Prod.fst) (SortedMap.mem_of_find? hdefinition)
    have hlength := Nat.lt_succ_of_le hcursor.place.rest_length_le
    simp only [visits, Finset.mem_product, List.mem_toFinset, Finset.mem_range, Finset.mem_univ,
      and_true]
    exact ⟨hmem, hlength⟩
  simp only [settled, Finset.mem_filter, hvisit, true_and]
  constructor
  · rintro ⟨other, hother, hlength, hskip, hsettles⟩
    exact hsettles.of_inside hother hcursor hlength hskip
  · intro hsettles
    exact ⟨cursor, hcursor, rfl, rfl, hsettles⟩

theorem settled_subset_succ (rules : Rules α) (start : Cursor) (levels : Nat) :
    settled rules start levels ⊆ settled rules start (levels + 1) := by
  rintro ⟨name, ahead, autoSkip⟩ hmem
  simp only [settled, Finset.mem_filter] at hmem ⊢
  obtain ⟨hvisit, cursor, hcursor, hlength, hskip, hsettles⟩ := hmem
  exact ⟨hvisit, cursor, hcursor, hlength, hskip, hsettles.mono (Nat.le_succ levels)⟩

theorem card_settled_le (rules : Rules α) (start : Cursor) (levels : Nat) :
    (settled rules start levels).card ≤
      2 * (start.rest.length + 1) * rules.definitions.length := by
  classical
  refine Nat.le_trans (Finset.card_le_card ?_) (card_visits_le rules start)
  exact Finset.filter_subset _ _

-- What comes to an end takes no more levels than it is deep, and those of the rules on the way.
-- The induction is on the levels that are known to be enough: a visit for which one fewer would not
-- do is new among those settled, so each is paid for once.
theorem Settles.bounded (h : Settles rules levels grammar cursor) (hcursor : start.Inside cursor) :
    Settles rules ((settled rules start levels).card * (rules.depth + 1) + grammar.depth)
      grammar cursor := by
  induction levels generalizing grammar cursor with
  | zero => cases h
  | succ levels ih =>
      have hsubset := settled_subset_succ rules start levels
      have hfewer := Nat.mul_le_mul_right (rules.depth + 1) (Finset.card_le_card hsubset)
      by_cases hbefore : Settles rules levels grammar cursor
      · exact (ih hbefore hcursor).mono (by omega)
      obtain ⟨depth, hdepth⟩ := Nat.exists_eq_succ_of_ne_zero grammar.depth_pos.ne'
      rw [hdepth, Nat.add_succ]
      refine h.of_parts hcursor.mark_le fun part next hpart hnext hsettles => ?_
      refine (ih hsettles (hcursor.trans hnext)).mono ?_
      cases hpart with
      | inl hshallow => omega
      | inr hrule =>
          obtain ⟨name, rfl, hdefinition⟩ := hrule
          have hnew := mt (mem_settled_iff hdefinition hcursor).mp hbefore
          have hmem := (mem_settled_iff hdefinition hcursor).mpr h
          have hproper := (Finset.ssubset_iff_of_subset hsubset).mpr ⟨_, hmem, hnew⟩
          have hmore := Finset.card_lt_card hproper
          have hvisit := Nat.mul_le_mul_right (rules.depth + 1) (Nat.succ_le_of_lt hmore)
          have hdeep := Rules.depth_le_of_definition? hdefinition
          rw [Nat.succ_mul] at hvisit
          omega

end Visits

variable {grammar : Grammar α} {cursor : Cursor} {outcome : Outcome (Node α)}

theorem Settles.at_levels {fuel : Nat} (h : Settles rules fuel grammar cursor)
    (hmark : cursor.mark ≤ cursor.pos) :
    Settles rules (levels rules grammar cursor) grammar cursor := by
  refine (h.bounded (.refl hmark)).mono ?_
  have hvisits := card_settled_le rules cursor fuel
  have htwice : 2 * (cursor.rest.length + 1) * rules.definitions.length ≤
      4 * (cursor.rest.length + 1) * rules.definitions.length :=
    Nat.mul_le_mul_right _ (Nat.mul_le_mul_right _ (by decide))
  have hdepth : rules.depth + 1 ≤ max grammar.depth rules.depth + 1 :=
    Nat.succ_le_succ (Nat.le_max_right _ _)
  have hmul := Nat.mul_le_mul (Nat.le_trans hvisits htwice) hdepth
  have hgrammar := Nat.le_max_left grammar.depth rules.depth
  rw [levels, Nat.succ_mul]
  omega

-- The levels that are provided are enough for whatever comes to an end.
theorem run_eq_of_returns (h : Returns rules grammar cursor outcome)
    (hmark : cursor.mark ≤ cursor.pos) : run rules grammar cursor = outcome := by
  obtain ⟨fuel, heval⟩ := h
  have hsettles : Settles rules fuel grammar cursor := by rw [Settles, heval, Option.isSome_some]
  obtain ⟨other, hother⟩ := Option.isSome_iff_exists.mp (hsettles.at_levels hmark)
  have hreturns : Returns rules grammar cursor other := ⟨_, hother⟩
  rw [run, hother, Option.getD_some]
  exact hreturns.unique ⟨fuel, heval⟩

-- Where nothing does, the run fails.
theorem run_eq_endless (h : ∀ outcome, ¬Returns rules grammar cursor outcome) :
    run rules grammar cursor = .failed (cursor.fail endless) cursor := by
  cases heval : eval rules (levels rules grammar cursor) grammar cursor with
  | none => rw [run, heval, Option.getD_none]
  | some outcome => exact absurd ⟨_, heval⟩ (h outcome)

end Grammar

end Descent
