import Descent.Proofs.Regex.Matches

namespace Descent.Regex

-- The greatest number that has a property, or none if no number has it.
def IsLast (holds : Nat → Prop) : Option Nat → Prop
  | none => ∀ n, ¬holds n
  | some n => holds n ∧ ∀ m, holds m → m ≤ n

section IsLast

variable {holds more : Nat → Prop} {found other : Option Nat}

theorem IsLast.unique (h : IsLast holds found) (hother : IsLast holds other) : found = other := by
  cases found with
  | none =>
      cases other with
      | none => rfl
      | some n => exact absurd hother.1 (h n)
  | some n =>
      cases other with
      | none => exact absurd h.1 (hother n)
      | some m =>
          have hle := h.2 m hother.1
          have hge := hother.2 n h.1
          rw [show n = m by omega]

theorem IsLast.congr (h : IsLast holds found) (hiff : ∀ n, holds n ↔ more n) : IsLast more found := by
  rwa [show more = holds from funext fun n => propext (hiff n).symm]

end IsLast

namespace Expr

variable {text : List Char} {expr next : Expr} {states : List Expr} {i j : Nat} {c : Char}

theorem WellFormed.step {before : Option Char} (h : expr.WellFormed) :
    ∀ next ∈ expr.step before c, next.WellFormed := by
  induction expr with
  | empty => simp [Expr.step]
  | one chars => by_cases hc : chars.contains c <;> simp [Expr.step, hc, WellFormed]
  | look assertion => simp [Expr.step]
  | seq a b iha ihb =>
      have hleft : ∀ next ∈ (a.step before c).map (seq · b), next.WellFormed := by
        intro next hmem
        obtain ⟨first, hfirst, rfl⟩ := List.mem_map.mp hmem
        exact ⟨iha h.1 first hfirst, h.2⟩
      intro next hmem
      unfold Expr.step at hmem
      by_cases hnull : a.nullable before (some c)
      · rw [if_pos hnull] at hmem
        exact (List.mem_append.mp hmem).elim (hleft next) (ihb h.2 next)
      · rw [if_neg hnull] at hmem
        exact hleft next hmem
  | alt a b iha ihb =>
      intro next hmem
      exact (List.mem_append.mp hmem).elim (iha h.1 next) (ihb h.2 next)
  | rep body least most lazy ih =>
      intro next hmem
      unfold Expr.step at hmem
      split at hmem
      · cases hmem
      · rename_i hmost
        obtain ⟨first, hfirst, rfl⟩ := List.mem_map.mp hmem
        refine ⟨ih h.1 first hfirst, h.1, fun m hm => ?_⟩
        obtain ⟨m', hm', rfl⟩ := Option.map_eq_some_iff.mp hm
        have hle := h.2 m' hm'
        split
        · exact Nat.zero_le _
        · omega

end Expr

end Descent.Regex
