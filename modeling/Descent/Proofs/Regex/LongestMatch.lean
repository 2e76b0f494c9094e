import Descent.Proofs.Regex.Longest
import Descent.Proofs.Regex.Reading
import Descent.Proofs.Yields

namespace Descent

namespace Regex

open Text

namespace Expr

-- The expressions differ in the order of alternatives and in which repetitions are lazy.
inductive Rearranged : Expr → Expr → Prop
  | refl (expr : Expr) : Rearranged expr expr
  | symm {a b : Expr} : Rearranged a b → Rearranged b a
  | trans {a b c : Expr} : Rearranged a b → Rearranged b c → Rearranged a c
  | reordered {alternatives others : List Expr} :
      alternatives.Perm others → Rearranged (altAll alternatives) (altAll others)
  | seq {a a' b b' : Expr} : Rearranged a a' → Rearranged b b' → Rearranged (seq a b) (seq a' b')
  | alt {a a' b b' : Expr} : Rearranged a a' → Rearranged b b' → Rearranged (alt a b) (alt a' b')
  | rep {body other : Expr} (least : Nat) (most : Option Nat) (lazy marked : Bool) :
      Rearranged body other → Rearranged (rep body least most lazy) (rep other least most marked)

variable {a b expr : Expr} {text : List Char} {i j : Nat}

theorem matches_altAll_iff {alternatives : List Expr} (hne : alternatives ≠ []) :
    (altAll alternatives).Matches text i j ↔ ∃ expr ∈ alternatives, expr.Matches text i j := by
  fun_induction altAll alternatives with
  | case1 => exact absurd rfl hne
  | case2 expr => simp
  | case3 expr others hothers ih => simp [Matches, ih hothers]

theorem matches_altAll_of_perm {alternatives others : List Expr} (h : alternatives.Perm others) :
    (altAll alternatives).Matches text i j ↔ (altAll others).Matches text i j := by
  by_cases hne : alternatives = []
  · rw [hne] at h
    rw [hne, h.nil_eq]
  · have hothers : others ≠ [] := fun heq => hne (List.perm_nil.mp (heq ▸ h))
    simp only [matches_altAll_iff hne, matches_altAll_iff hothers, h.mem_iff]

theorem Rearranged.matches_iff (h : Rearranged a b) :
    ∀ i j, a.Matches text i j ↔ b.Matches text i j := by
  induction h with
  | refl expr => exact fun i j => Iff.rfl
  | symm _ ih => exact fun i j => (ih i j).symm
  | trans _ _ iha ihb => exact fun i j => (iha i j).trans (ihb i j)
  | reordered hperm => exact fun i j => matches_altAll_of_perm hperm
  | seq _ _ iha ihb => simp only [Matches, iha, ihb, implies_true]
  | alt _ _ iha ihb => simp only [Matches, iha, ihb, implies_true]
  | rep least most lazy marked _ ih =>
      have heq := funext fun i => funext fun j => propext (ih i j)
      simp only [Matches, heq, implies_true]

end Expr

-- What a search that is allowed to give up comes to.
inductive Attempt where
  | ended (found : Option Nat)
  | gaveUp

-- Two engines that search a text for the longest match from its start on and tell its end in bytes.
-- The quick one may give up.
structure Engines where
  quick : List Char → Attempt
  thorough : List Char → Option Nat

namespace Engines

-- Where the quick engine gives up, the other one takes over.
def longest (engines : Engines) (text : List Char) : Option Nat :=
  match engines.quick text with
  | .ended found => found
  | .gaveUp => engines.thorough text

variable {engines : Engines} {expr : Expr}

end Engines

end Regex

namespace Grammar

open Regex Text

variable {α : Type} (rules : Rules α) {pattern other : Regex} {cursor : Cursor}

end Grammar

end Descent
