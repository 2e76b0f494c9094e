import Descent.Proofs.Calc.Evaluation

namespace Descent.Calc

open Grammar Text
open Json (Blank)

variable {Item : List Char → Float → Prop} {operators name : String} {cursor stop : Cursor}
  {node : Node Empty}

-- What a chain hands over to be worked off: an operand that is a float, and any number of times
-- one of its operators and another such operand. Nothing has to be made up for what is missing.
def HandsOver (operators : String) (node : Node Empty) : Prop :=
  ∃ first steps, (∀ step ∈ steps, step.1 ∈ operators.toList) ∧
    node = .children [floatNode first, .children (steps.map stepNode)] ∧
    fold node = floatNode (workOff first steps)

theorem mem_operators_of_row {text : List Char} {steps : List (Char × Float)}
    (h : Row (Step operators Item) text steps) : ∀ step ∈ steps, step.1 ∈ operators.toList := by
  induction h with
  | nil => exact nofun
  | cons hstep _ ih =>
      obtain ⟨hmem, -, -⟩ := hstep
      exact List.forall_mem_cons.mpr ⟨hmem, ih⟩

theorem handsOver_of_yields (hoperators : Operators operators) (hready : Ready cursor)
    (hsound : Sound rules Item floatNode (.rule name) (cursor.rest.length + 1))
    (h : Yields rules (.seq [.rule name, .many (step operators name) none 0]) cursor (.ok node)
      stop) : HandsOver operators node := by
  obtain ⟨nodes, rfl, hfollow⟩ := h.follow
  obtain ⟨_, middle, _, rfl, hfirst, hfollow⟩ := hfollow.of_cons
  obtain ⟨_, _, _, rfl, hmany, hfollow⟩ := hfollow.of_cons
  obtain ⟨rfl, rfl⟩ := hfollow.of_nil
  obtain ⟨-, first, -, rfl, -⟩ := hsound _ _ _ (Nat.lt_succ_self _) hready hfirst
  obtain ⟨nodes, rfl, hrepeats⟩ := hmany.of_many
  have hle := hfirst.reaches.place.rest_length_le
  obtain ⟨_, steps, hsteps, rfl, -⟩ := (sound_step hoperators hsound).row hrepeats
    (hready.of_yields hfirst) (Nat.lt_succ_of_le hle) rfl
  exact ⟨first, steps, mem_operators_of_row hsteps, rfl, fold_children first steps⟩

-- Both chains of the grammar hand over all that they have read.
theorem handsOver_of_definition? {rule : String}
    (hrule : rules.definition? rule = some (chain operators name)) (hready : Ready cursor)
    (h : Yields rules (.seq [.rule name, .many (step operators name) none 0]) cursor (.ok node)
      stop) : HandsOver operators node := by
  have hmem := SortedMap.mem_of_find? hrule
  simp only [rules, value, chain, oneOf, List.mem_cons, List.not_mem_nil, or_false, Prod.mk.injEq,
    reduceCtorEq, and_false, false_or] at hmem
  rcases hmem with ⟨-, hchain⟩ | ⟨-, hchain⟩
  · cases hchain
    exact handsOver_of_yields operators_product hready (sound_operand (sound_sum _)) h
  · cases hchain
    exact handsOver_of_yields operators_sum hready (sound_product (sound_sum _)) h

theorem isExpression_of_eval {input : String} {x : Float} (h : eval input = .ok x) :
    IsExpression input.toList x := by
  obtain ⟨node, stop, hyields, hstop, rfl⟩ := eval_eq_ok_iff.mp h
  obtain ⟨text, x, hsum, rfl, hrest⟩ :=
    sound_sum _ _ _ _ (Nat.lt_succ_self _) (ready_textStart _) hyields
  obtain ⟨blank, hblank, hinput⟩ := Json.exists_blank_append_significant input.toList
  rw [rest_textStart] at hrest
  refine ⟨blank ++ text, stop.rest, ?_, padded_sum.pad hblank hsum, hstop⟩
  rw [hinput, hrest, List.append_assoc]

-- The texts that are evaluated are the expressions of the dialect, and each comes to what its
-- operands and operators come to, from left to right. Any other text gives an error. Wherever a
-- chain has been read in front of blanks, none of its operands and operators is missing.
theorem eval_iff_isExpression (input : String) :
    (∀ x, eval input = .ok x ↔ IsExpression input.toList x) ∧
    ((∃ x, IsExpression input.toList x) ∨ ∃ error, eval input = .error error) ∧
    ∀ rule operators name, rules.definition? rule = some (chain operators name) →
      ∀ cursor node stop, Ready cursor →
        Yields rules (.seq [.rule name, .many (step operators name) none 0]) cursor (.ok node)
          stop → HandsOver operators node := by
  refine ⟨fun x => ⟨isExpression_of_eval, eval_of_isExpression⟩, ?_, ?_⟩
  · cases heval : eval input with
    | ok x => exact .inl ⟨x, isExpression_of_eval heval⟩
    | error error => exact .inr ⟨error, rfl⟩
  · intro rule operators name hrule cursor node stop hready hyields
    exact handsOver_of_definition? hrule hready hyields

end Descent.Calc
