import Descent.Proofs.Alternatives

namespace Descent.Grammar

variable {α : Type}

-- What a grammar may try one level further down.
def partsOf (rules : Rules α) : Grammar α → List (Grammar α)
  | scan _ | cut => []
  | seq parts => parts
  | any alternatives => alternatives
  | many item separator _ => item :: separator.toList
  | maybe part | label _ part | named _ part | map _ part | bind _ part | merge part
  | tight part => [part]
  | rule name => (rules.definition? name).toList

-- The one grammar stands in the other, or in the definition of a rule that stands there.
inductive Occurs (rules : Rules α) (inner : Grammar α) : Grammar α → Prop
  | self : Occurs rules inner inner
  | inside {grammar part} : part ∈ partsOf rules grammar → Occurs rules inner part →
      Occurs rules inner grammar

def CutFree (rules : Rules α) (grammar : Grammar α) : Prop := ¬Occurs rules .cut grammar

section Marks

variable {rules : Rules α} {grammar part : Grammar α}

theorem not_cutFree_cut : ¬CutFree rules (.cut : Grammar α) := fun h => h .self

theorem CutFree.of_mem (h : CutFree rules grammar) (hmem : part ∈ partsOf rules grammar) :
    CutFree rules part := fun hoccurs => h (.inside hmem hoccurs)

theorem cutFree_of_parts (hne : grammar ≠ .cut)
    (h : ∀ part ∈ partsOf rules grammar, CutFree rules part) : CutFree rules grammar := by
  intro hoccurs
  cases hoccurs with
  | self => exact hne rfl
  | inside hmem hinside => exact h _ hmem hinside

section Level

variable {Tried : Grammar α → Cursor → Outcome (Node α) → List (Step α) → Prop}
  (hparts : ∀ {part cursor outcome steps}, Tried part cursor outcome steps →
    CutFree rules part → outcome.cursor.mark = cursor.mark)

include hparts

theorem PartsRun.mark_eq {parts : List (Grammar α)} {cursor : Cursor}
    {outcome : Outcome (List (Node α))} {steps : List (Step α)}
    (h : PartsRun Tried parts cursor outcome steps) (hfree : ∀ part ∈ parts, CutFree rules part) :
    outcome.cursor.mark = cursor.mark := by
  induction h with
  | nil => rfl
  | failed hpart => exact hparts hpart (hfree _ List.mem_cons_self)
  | cons hpart _ _ ih =>
      obtain ⟨hfirst, hothers⟩ := List.forall_mem_cons.mp hfree
      exact (ih hothers).trans (hparts hpart hfirst)

theorem AnyRun.mark_eq {start : Cursor} {best : Option Failure} {alternatives : List (Grammar α)}
    {cursor : Cursor} {outcome : Outcome (Node α)} {steps : List (Step α)}
    (h : AnyRun Tried start best alternatives cursor outcome steps)
    (hfree : ∀ part ∈ alternatives, CutFree rules part) :
    outcome.cursor.mark = cursor.mark := by
  induction h with
  | exhausted => rfl
  | matched hpart | committed hpart => exact hparts hpart (hfree _ List.mem_cons_self)
  | next hpart _ _ _ ih =>
      obtain ⟨hfirst, hothers⟩ := List.forall_mem_cons.mp hfree
      exact (ih hothers).trans (hparts hpart hfirst)

theorem SeparatorRun.mark_eq {separator : Option (Grammar α)} {cursor : Cursor}
    {outcome : Outcome (Node α)} {steps : List (Step α)}
    (h : SeparatorRun Tried separator cursor outcome steps)
    (hfree : ∀ part ∈ separator, CutFree rules part) : outcome.cursor.mark = cursor.mark := by
  cases h with
  | none => rfl
  | some hpart => exact hparts hpart (hfree _ rfl)

theorem ItemsRun.mark_eq {item : Grammar α} {separator : Option (Grammar α)} {start : Cursor}
    {min : Nat} {cursor : Cursor} {outcome : Outcome (List (Node α))} {steps : List (Step α)}
    (h : ItemsRun Tried item separator start min cursor outcome steps)
    (hitem : CutFree rules item) (hfree : ∀ part ∈ separator, CutFree rules part) :
    outcome.cursor.mark = cursor.mark := by
  induction h with
  | committed hrun | short hrun | ended hrun => exact hparts hrun hitem
  | separatorCommitted hrun _ hseparator | separatorEnded hrun _ hseparator
  | stuck hrun _ hseparator =>
      exact (hseparator.mark_eq hparts hfree).trans (hparts hrun hitem)
  | next hrun _ hseparator _ _ _ ih =>
      calc _ = _ := ih
        _ = _ := hseparator.mark_eq hparts hfree
        _ = _ := hparts hrun hitem

theorem LevelRun.mark_eq {cursor : Cursor} {outcome : Outcome (Node α)} {steps : List (Step α)}
    (h : LevelRun Tried rules grammar cursor outcome steps) (hfree : CutFree rules grammar) :
    outcome.cursor.mark = cursor.mark := by
  cases h with
  | scan => exact attemptScan_mark _ _
  | cut => exact absurd hfree not_cutFree_cut
  | seq hrun | seqCommitted hrun | seqFailed hrun =>
      exact hrun.mark_eq hparts fun _ hmem => hfree.of_mem hmem
  | any hrun => exact hrun.mark_eq hparts fun _ hmem => hfree.of_mem hmem
  | many hrun =>
      refine hrun.mark_eq hparts (hfree.of_mem List.mem_cons_self) fun _ hmem => hfree.of_mem ?_
      exact List.mem_cons_of_mem _ (Option.mem_toList.mpr hmem)
  | maybe hpart | maybeCommitted hpart | maybeFailed hpart | label hpart | labelCommitted hpart
  | labelFailed hpart | named hpart | map hpart | bind hpart | merge hpart | tight hpart =>
      have hinner := hparts hpart (hfree.of_mem List.mem_cons_self)
      exact hinner
  | undefined => rfl
  | rule hdefinition hpart =>
      have hinner := hparts hpart (hfree.of_mem (Option.mem_toList.mpr hdefinition))
      exact hinner

end Level

variable {cursor stop : Cursor} {result : Except Failure (Node α)} {failure : Failure}

-- Only a cut sets the mark.
theorem Runs.mark_eq {outcome : Outcome (Node α)} {steps : List (Step α)}
    (h : Runs rules grammar cursor outcome steps) (hfree : CutFree rules grammar) :
    outcome.cursor.mark = cursor.mark :=
  h.induction
    (P := fun grammar cursor outcome _ =>
      CutFree rules grammar → outcome.cursor.mark = cursor.mark)
    (fun hlevel => hlevel.mark_eq fun hpart => hpart.2) hfree

theorem Yields.mark_eq (h : Yields rules grammar cursor result stop)
    (hfree : CutFree rules grammar) : stop.mark = cursor.mark := by
  obtain ⟨events, steps, hruns⟩ := h.exists_runs
  exact hruns.mark_eq hfree

-- A failure without a cut changes nothing.
theorem Yields.eq_of_error (h : Yields rules grammar cursor (.error failure) stop)
    (hfree : CutFree rules grammar) (hmark : cursor.mark ≤ cursor.pos) : stop = cursor := by
  have hstop := h.mark_eq hfree
  have hback : stop.mark ≤ cursor.pos := by rwa [hstop]
  exact (h.rewind hback).symm.trans (h.reaches.rewind_eq hstop)

end Marks

section Pairs

-- What becomes of the outcome of the second part, where the first has matched.
inductive Completes (node : Node α) (cursor : Cursor) :
    Except Failure (Node α) → Cursor → Except Failure (Node α) → Cursor → Prop
  | matched {other stop} :
      Completes node cursor (.ok other) stop (.ok (.children [node, other])) stop
  | failed {failure stop} : Completes node cursor (.error failure) stop (.error failure) cursor

variable {rules : Rules α} {first part : Grammar α} {rest : List (Grammar α)}
  {cursor middle stop : Cursor} {node : Node α} {failure : Failure} {best : Option Failure}
  {result : Except Failure (Node α)}

theorem cutFree_pair (hfirst : CutFree rules first) (hpart : CutFree rules part) :
    CutFree rules (.seq [first, part]) := by
  refine cutFree_of_parts nofun ?_
  simp [partsOf, hfirst, hpart]

theorem yields_pair_of_error (hfirst : Yields rules first cursor (.error failure) stop)
    (hfree : CutFree rules first) (hmark : cursor.mark ≤ cursor.pos) :
    Yields rules (.seq [first, part]) cursor (.error failure) cursor := by
  obtain rfl := hfirst.eq_of_error hfree hmark
  exact (Follow.failed hfirst).yields_seq_of_back hmark

theorem yields_pair_iff (hyields : Yields rules first cursor (.ok node) middle)
    (hfirst : CutFree rules first) (hpart : CutFree rules part)
    (hmark : cursor.mark ≤ cursor.pos) :
    Yields rules (.seq [first, part]) cursor result stop ↔
      ∃ inner behind, Yields rules part middle inner behind ∧
        Completes node cursor inner behind result stop := by
  constructor
  · intro h
    cases result with
    | ok whole =>
        obtain ⟨nodes, rfl, hfollow⟩ := h.follow
        obtain ⟨node', middle', others, rfl, hfirst', hothers⟩ := hfollow.of_cons
        obtain ⟨hnode, rfl⟩ := hfirst'.unique hyields
        cases hnode
        obtain ⟨other, stop', last, rfl, hsecond, hlast⟩ := hothers.of_cons
        obtain ⟨rfl, rfl⟩ := hlast.of_nil
        exact ⟨_, _, hsecond, .matched⟩
    | error failure =>
        obtain rfl := h.eq_of_error (cutFree_pair hfirst hpart) hmark
        obtain ⟨behind, hfollow, -⟩ := h.follow_of_error
        rcases hfollow.of_cons_error with hfails | ⟨node', middle', hfirst', hothers⟩
        · cases (hfails.unique hyields).1
        · obtain ⟨-, rfl⟩ := hfirst'.unique hyields
          rcases hothers.of_cons_error with hsecond | ⟨_, _, _, hnothing⟩
          · exact ⟨_, _, hsecond, .failed⟩
          · cases hnothing
  · rintro ⟨inner, behind, hsecond, _ | _⟩
    · exact Follow.yields_seq (.cons hyields (.cons hsecond .nil))
    · have hfollow : Follow rules [first, part] cursor (.error _) behind :=
        .cons hyields (.failed hsecond)
      have hbehind : behind.mark ≤ cursor.pos := by
        rwa [hsecond.mark_eq hpart, hyields.mark_eq hfirst]
      have hseq := hfollow.yields_seq_of_back hbehind
      rwa [hseq.eq_of_error (cutFree_pair hfirst hpart) hmark] at hseq

-- Without cuts a search just goes on behind a failure.
theorem chooses_cons_iff_of_cutFree (hfree : CutFree rules part)
    (hmark : cursor.mark ≤ cursor.pos) :
    Chooses rules cursor best (part :: rest) cursor result stop ↔
      (∃ node, result = .ok node ∧ Yields rules part cursor (.ok node) stop) ∨
        ∃ failure, Yields rules part cursor (.error failure) cursor ∧
          Chooses rules cursor (some (further best failure)) rest cursor result stop := by
  constructor
  · intro h
    cases h with
    | matched hyields => exact .inl ⟨_, rfl, hyields⟩
    | committed hyields hcommitted =>
        rw [hyields.mark_eq hfree] at hcommitted
        exact absurd hmark (Nat.not_le_of_lt hcommitted)
    | next hyields _ hothers =>
        obtain rfl := hyields.eq_of_error hfree hmark
        exact .inr ⟨_, hyields, hothers⟩
  · rintro (⟨node, rfl, hyields⟩ | ⟨failure, hyields, hothers⟩)
    · exact .matched hyields
    · exact .next hyields hmark hothers

-- Where the first part matches, the search comes to that for a second part behind it. Without
-- anything to report, a search among no parts would tell of the place where it is made.
theorem chooses_pairs_iff (hyields : Yields rules first cursor (.ok node) middle)
    (hfirst : CutFree rules first) (hrest : ∀ part ∈ rest, CutFree rules part)
    (hmark : cursor.mark ≤ cursor.pos) (hsome : rest = [] → best ≠ none) :
    Chooses rules cursor best (rest.map fun part => .seq [first, part]) cursor result stop ↔
      ∃ inner behind, Chooses rules middle best rest middle inner behind ∧
        Completes node cursor inner behind result stop := by
  have hmiddle : middle.mark ≤ middle.pos := hyields.mark_le hmark
  induction rest generalizing best with
  | nil =>
      obtain ⟨failure, rfl⟩ := Option.ne_none_iff_exists'.mp (hsome rfl)
      constructor
      · rintro ⟨⟩
        exact ⟨_, _, .exhausted, .failed⟩
      · rintro ⟨inner, behind, ⟨⟩, ⟨⟩⟩
        exact .exhausted
  | cons part rest ih =>
      obtain ⟨hpart, hothers⟩ := List.forall_mem_cons.mp hrest
      have hpair {result stop} : Yields rules (.seq [first, part]) cursor result stop ↔ _ :=
        yields_pair_iff hyields hfirst hpart hmark
      have hpairs (failure : Failure) :=
        ih hothers fun _ => Option.some_ne_none (further best failure)
      rw [List.map_cons, chooses_cons_iff_of_cutFree (cutFree_pair hfirst hpart) hmark]
      simp only [chooses_cons_iff_of_cutFree hpart hmiddle, hpairs]
      constructor
      · rintro (⟨whole, rfl, hwhole⟩ | ⟨failure, hfails, inner, last, hseconds, hcompletes⟩)
        · obtain ⟨inner, behind, hsecond, ⟨⟩⟩ := hpair.mp hwhole
          exact ⟨_, _, .inl ⟨_, rfl, hsecond⟩, .matched⟩
        · obtain ⟨_, behind, hsecond, ⟨⟩⟩ := hpair.mp hfails
          obtain rfl := hsecond.eq_of_error hpart hmiddle
          exact ⟨inner, last, .inr ⟨failure, hsecond, hseconds⟩, hcompletes⟩
      · rintro ⟨inner, last, ⟨other, rfl, hsecond⟩ | ⟨failure, hsecond, hseconds⟩, hcompletes⟩
        · cases hcompletes
          exact .inl ⟨_, rfl, hpair.mpr ⟨_, _, hsecond, .matched⟩⟩
        · have hfails := hpair.mpr ⟨_, _, hsecond, .failed⟩
          exact .inr ⟨failure, hfails, inner, last, hseconds, hcompletes⟩

-- Where the first part fails, all pairs fail with it.
theorem chooses_pairs_of_error (hyields : Yields rules first cursor (.error failure) stop)
    (hfirst : CutFree rules first) (hmark : cursor.mark ≤ cursor.pos) :
    Chooses rules cursor (some failure) (rest.map fun part => .seq [first, part]) cursor
      (.error failure) cursor := by
  induction rest with
  | nil => exact .exhausted
  | cons part rest ih =>
      have hagain : further (some failure) failure = failure := by
        simp [further, Failure.isBeyond]
      refine .next (yields_pair_of_error hyields hfirst hmark) hmark ?_
      rwa [hagain]

theorem yields_iff_of_same {grammar other : Grammar α} {same : Except Failure (Node α)}
    (h : Yields rules grammar cursor same middle) (hother : Yields rules other cursor same middle) :
    Yields rules grammar cursor result stop ↔ Yields rules other cursor result stop := by
  constructor
  · intro hyields
    obtain ⟨rfl, rfl⟩ := hyields.unique h
    exact hother
  · intro hyields
    obtain ⟨rfl, rfl⟩ := hyields.unique hother
    exact h

-- Whatever is said of a sequence, its first part has been tried.
theorem Yields.exists_first (h : Yields rules (.seq (first :: rest)) cursor result stop) :
    ∃ inner behind, Yields rules first cursor inner behind := by
  cases result with
  | ok whole =>
      obtain ⟨nodes, -, hfollow⟩ := h.follow
      obtain ⟨node, middle, -, -, hfirst, -⟩ := hfollow.of_cons
      exact ⟨_, _, hfirst⟩
  | error failure =>
      obtain ⟨behind, hfollow, -⟩ := h.follow_of_error
      rcases hfollow.of_cons_error with hfirst | ⟨node, middle, hfirst, -⟩
      · exact ⟨_, _, hfirst⟩
      · exact ⟨_, _, hfirst⟩

theorem Yields.exists_first_of_pairs (hne : rest ≠ [])
    (h : Yields rules (.any (rest.map fun part => .seq [first, part])) cursor result stop) :
    ∃ inner behind, Yields rules first cursor inner behind := by
  obtain ⟨part, rest, rfl⟩ := List.exists_cons_of_ne_nil hne
  cases yields_any_iff.mp h with
  | matched hpair | committed hpair | next hpair => exact hpair.exists_first

end Pairs

-- What alternatives without cuts begin with may be taken out in front of them.
theorem left_factoring_is_sound {rules : Rules α} {first : Grammar α} {rest : List (Grammar α)}
    (hfirst : CutFree rules first) (hrest : ∀ part ∈ rest, CutFree rules part) (hne : rest ≠ [])
    {cursor : Cursor} (hmark : cursor.mark ≤ cursor.pos) (result : Except Failure (Node α))
    (stop : Cursor) :
    Yields rules (.any (rest.map fun part => .seq [first, part])) cursor result stop ↔
      Yields rules (.seq [first, .any rest]) cursor result stop := by
  -- both try the first part where they start, so neither comes to an end unless that does
  by_cases htried : ∃ inner middle, Yields rules first cursor inner middle
  · obtain ⟨inner, middle, hyields⟩ := htried
    cases inner with
    | ok node =>
        have hany : CutFree rules (.any rest) := cutFree_of_parts nofun hrest
        rw [yields_any_iff, yields_pair_iff hyields hfirst hany hmark,
          chooses_pairs_iff hyields hfirst hrest hmark fun h => absurd h hne]
        simp only [yields_any_iff]
    | error failure =>
        refine yields_iff_of_same ?_ (yields_pair_of_error hyields hfirst hmark)
        obtain ⟨part, rest, rfl⟩ := List.exists_cons_of_ne_nil hne
        rw [yields_any_iff]
        exact .next (yields_pair_of_error hyields hfirst hmark) hmark
          (chooses_pairs_of_error hyields hfirst hmark)
  · constructor
    · intro h
      exact absurd (h.exists_first_of_pairs hne) htried
    · intro h
      exact absurd h.exists_first htried

-- A sign in front of one of two letters is read twice if it stands in front of both.
theorem left_factoring_is_sound_for_signs :
    let rules : Rules Unit := { definitions := [("sign", .any [.exact "+", .exact "-"])] }
    let letters : List (Grammar Unit) := [.exact "a", .exact "b"]
    let start := Cursor.ofInput ['-', 'b'] .ascii
    (CutFree rules (.rule "sign") ∧ (∀ part ∈ letters, CutFree rules part) ∧ letters ≠ [] ∧
        start.mark ≤ start.pos) ∧
      Yields rules (.any (letters.map fun part => .seq [.rule "sign", part])) start
        (.ok (.children [.token "-", .token "b"])) { start with pos := 2, rest := [] } := by
  intro rules letters start
  have hexact (name : String) : CutFree rules (.exact name) := cutFree_of_parts nofun nofun
  have hsign : CutFree rules (.rule "sign") := by
    refine cutFree_of_parts nofun fun part hmem => ?_
    obtain rfl : .any [.exact "+", .exact "-"] = part := Option.some.inj (Option.mem_toList.mp hmem)
    exact cutFree_of_parts nofun (by simp [partsOf, hexact])
  have hletters : ∀ part ∈ letters, CutFree rules part := by simp [letters, hexact]
  have hne : letters ≠ [] := List.cons_ne_nil _ _
  have hmark : start.mark ≤ start.pos := Nat.le_refl 0
  refine ⟨⟨hsign, hletters, hne, hmark⟩, ?_⟩
  apply (left_factoring_is_sound hsign hletters hne hmark _ _).mpr
  let middle : Cursor := { start with pos := 1, rest := ['b'] }
  have hplus : Yields rules (.exact "+") start (.error ⟨0, "+"⟩) start := ⟨[], 1, rfl⟩
  have hminus : Yields rules (.exact "-") start (.ok (.token "-")) middle := ⟨[], 1, rfl⟩
  have hfirst : Yields rules (.rule "sign") start (.ok (.token "-")) middle :=
    (yields_rule_iff rfl).mpr (yields_any_iff.mpr (.next hplus hmark (.matched hminus)))
  have hsecond : Yields rules (.any letters) middle (.ok (.token "b"))
      { start with pos := 2, rest := [] } := ⟨[], 2, rfl⟩
  exact Follow.yields_seq (.cons hfirst (.cons hsecond .nil))

end Descent.Grammar
