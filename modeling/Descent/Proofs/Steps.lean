import Descent.Proofs.Attempts

namespace Descent

variable {α : Type}

namespace Step

-- The steps leave all attempts that are under way, the innermost first, and so they do with
-- those that they enter.
def Closes : List (Grammar α × Cursor) → List (Step α) → Prop
  | around, [] => around = []
  | around, entered grammar start :: rest => Closes ((grammar, start) :: around) rest
  | around, left grammar start _ :: rest =>
    ∃ outer, around = (grammar, start) :: outer ∧ Closes outer rest

-- Steps that leave what they enter, and nothing else.
def Nested (steps : List (Step α)) : Prop :=
  ∀ around rest, Closes around rest → Closes around (steps ++ rest)

theorem nested_nil : Nested ([] : List (Step α)) := fun _ _ h => h

theorem Nested.append {first rest : List (Step α)} (hfirst : Nested first) (hrest : Nested rest) :
    Nested (first ++ rest) := by
  intro around later h
  rw [List.append_assoc]
  exact hfirst around _ (hrest around later h)

theorem Nested.enclose {inner : List (Step α)} (h : Nested inner) (grammar : Grammar α)
    (start : Cursor) (outcome : Outcome (Node α)) :
    Nested (.entered grammar start :: (inner ++ [.left grammar start outcome])) := by
  intro around rest hrest
  rw [List.cons_append, List.append_assoc]
  exact h _ _ ⟨around, rfl, hrest⟩

theorem closes_of_closes_append {around : List (Grammar α × Cursor)}
    {before after : List (Step α)} (h : Closes around (before ++ after)) :
    Closes (pending around before) after := by
  induction before generalizing around with
  | nil => exact h
  | cons step before ih =>
      cases step with
      | entered grammar start => exact ih h
      | left grammar start outcome =>
          obtain ⟨outer, rfl, h⟩ := h
          exact ih h

-- Steps that enter nothing leave exactly what is under way.
theorem map_tried_of_closes {around : List (Grammar α × Cursor)} {steps : List (Step α)}
    (hleft : ∀ step ∈ steps, ∃ grammar start outcome, step = left grammar start outcome)
    (h : Closes around steps) : steps.map tried = around := by
  induction steps generalizing around with
  | nil => exact h.symm
  | cons step rest ih =>
      obtain ⟨grammar, start, outcome, rfl⟩ := hleft step List.mem_cons_self
      obtain ⟨outer, rfl, h⟩ := h
      rw [List.map_cons, ih (fun s hs => hleft s (List.mem_cons_of_mem _ hs)) h]
      rfl

end Step

namespace Grammar

variable {rules : Rules α} {grammar : Grammar α} {cursor : Cursor} {outcome : Outcome (Node α)}
  {steps : List (Step α)}

private theorem seen_respected {σ : Type} {P : List σ → Prop} (hnil : P [])
    (happend : ∀ {first rest}, P first → P rest → P (first ++ rest)) :
    Respected (m := Watched σ) (n := Watched σ)
      fun _ x _ => ∀ b steps, x.seen = some (b, steps) → P steps where
  pure _ _ _ h := by
    cases h
    exact hnil
  cutShort _ _ h := nomatch h
  bind hx hf c steps h := by
    obtain ⟨b, first, rest, hb, hc, rfl⟩ := Watched.seen_bind_eq_some_iff.mp h
    exact happend (hx b first hb) (hf b c rest hc)

-- What holds of the steps of a run: it has to hold of an attempt if it holds of what is seen
-- inside, which is the runs of other attempts one after the other.
theorem watch_induction {P : List (Step α) → Prop} (hnil : P [])
    (happend : ∀ {first rest}, P first → P rest → P (first ++ rest))
    (hattempt : ∀ {grammar cursor outcome inner}, Returns rules grammar cursor outcome → P inner →
      P (.entered grammar cursor :: (inner ++ [.left grammar cursor outcome])))
    {fuel : Nat} (h : (watch rules fuel grammar cursor).seen = some (outcome, steps)) :
    P steps := by
  induction fuel generalizing grammar cursor outcome steps with
  | zero => cases h
  | succ fuel ih =>
      have hreturns : Returns rules grammar cursor outcome := ⟨fuel + 1, eval_of_watch h⟩
      obtain ⟨inner, hlevel, rfl⟩ := seen_watch_succ_iff.mp h
      refine hattempt hreturns ?_
      exact attemptLevel_respects (q := watch rules fuel) (seen_respected hnil happend)
        (fun _ _ _ _ hpart => ih hpart) rules grammar cursor outcome inner hlevel

theorem Runs.nested (h : Runs rules grammar cursor outcome steps) : Step.Nested steps := by
  obtain ⟨fuel, h⟩ := h
  exact watch_induction Step.nested_nil Step.Nested.append
    (fun _ hinner => hinner.enclose _ _ _) h

-- If nothing is entered behind some point of a run, all that is left there is what is under way.
theorem Runs.map_tried_eq_pending (h : Runs rules grammar cursor outcome steps)
    {before after : List (Step α)} (hsteps : steps = before ++ after)
    (hleft : ∀ step ∈ after, ∃ grammar start outcome, step = .left grammar start outcome) :
    after.map Step.tried = Step.pending [] before := by
  have hcloses : Step.Closes [] (before ++ after) := by
    simpa [hsteps] using h.nested [] [] rfl
  exact Step.map_tried_of_closes hleft (Step.closes_of_closes_append hcloses)

-- Every attempt of a run ends by itself.
theorem Runs.returns_of_left (h : Runs rules grammar cursor outcome steps) :
    ∀ part start inner, .left part start inner ∈ steps → Returns rules part start inner := by
  obtain ⟨fuel, h⟩ := h
  refine watch_induction (P := fun steps => ∀ part start inner, .left part start inner ∈ steps →
    Returns rules part start inner) (by simp) ?_ ?_ h
  · intro first rest hfirst hrest part start inner hmem
    exact (List.mem_append.mp hmem).elim (hfirst part start inner) (hrest part start inner)
  · intro grammar cursor outcome inner hreturns hinner part start left hmem
    simp only [List.mem_cons, List.mem_append, List.not_mem_nil, or_false, reduceCtorEq,
      false_or] at hmem
    cases hmem with
    | inl hmem => exact hinner part start left hmem
    | inr heq =>
        cases heq
        exact hreturns

-- Every attempt that is entered in a run is left in it.
theorem Runs.left_of_entered (h : Runs rules grammar cursor outcome steps) :
    ∀ part start, .entered part start ∈ steps → ∃ inner, .left part start inner ∈ steps := by
  obtain ⟨fuel, h⟩ := h
  refine watch_induction (P := fun steps => ∀ part start, .entered part start ∈ steps →
    ∃ inner, .left part start inner ∈ steps) (by simp) ?_ ?_ h
  · intro first rest hfirst hrest part start hmem
    cases List.mem_append.mp hmem with
    | inl hmem =>
        obtain ⟨inner, hleft⟩ := hfirst part start hmem
        exact ⟨inner, List.mem_append_left _ hleft⟩
    | inr hmem =>
        obtain ⟨inner, hleft⟩ := hrest part start hmem
        exact ⟨inner, List.mem_append_right _ hleft⟩
  · intro grammar cursor outcome inner _ hinner part start hmem
    simp only [List.mem_cons, List.mem_append, List.not_mem_nil, or_false, reduceCtorEq] at hmem
    cases hmem with
    | inl heq =>
        cases heq
        exact ⟨outcome, by simp⟩
    | inr hmem =>
        obtain ⟨last, hleft⟩ := hinner part start hmem
        exact ⟨last, by simp [hleft]⟩

end Grammar

end Descent
