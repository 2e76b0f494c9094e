import Descent.Regex.Expr

namespace Descent.Regex

-- One step after the other, so many in all.
def Times (leads : Nat → Nat → Prop) : Nat → Nat → Nat → Prop
  | 0, i, j => i = j
  | n + 1, i, j => ∃ k, leads i k ∧ Times leads n k j

-- The character in front of a place in a text. In front of the first place there is none.
def charBefore? (text : List Char) : Nat → Option Char
  | 0 => none
  | i + 1 => text[i]?

namespace Expr

-- The expression matches what stands between two places of a text, counted in characters. Assertions
-- look at the whole text.
def Matches (text : List Char) : Expr → Nat → Nat → Prop
  | empty, i, j => i = j
  | one chars, i, j => (∃ c, text[i]? = some c ∧ chars.contains c) ∧ j = i + 1
  | look assertion, i, j => assertion.holds (charBefore? text i) text[i]? ∧ i = j
  | seq a b, i, j => ∃ k, a.Matches text i k ∧ b.Matches text k j
  | alt a b, i, j => a.Matches text i j ∨ b.Matches text i j
  | rep body least most _, i, j =>
    ∃ n, (least ≤ n ∧ ∀ m ∈ most, n ≤ m) ∧ Times (body.Matches text) n i j

-- No repetition is asked for more often than it is allowed.
def WellFormed : Expr → Prop
  | empty | one _ | look _ => True
  | seq a b | alt a b => a.WellFormed ∧ b.WellFormed
  | rep body least most _ => body.WellFormed ∧ ∀ m ∈ most, least ≤ m

end Expr

section Times

variable {leads : Nat → Nat → Prop} {m n i j : Nat}

variable (hle : ∀ i j, leads i j → i ≤ j)

include hle

theorem Times.le (h : Times leads n i j) : i ≤ j := by
  induction n generalizing i with
  | zero => exact Nat.le_of_eq h
  | succ n ih =>
      obtain ⟨k, hfirst, hrest⟩ := h
      exact Nat.le_trans (hle i k hfirst) (ih hrest)

-- Steps that come to nothing all stay where they are.
theorem Times.stays (h : Times leads (n + 1) i i) : leads i i := by
  obtain ⟨k, hfirst, hrest⟩ := h
  have hik := hle i k hfirst
  have hki := Times.le hle hrest
  rwa [show k = i by omega] at hfirst

end Times

namespace Expr

variable {text : List Char} {expr : Expr} {i j : Nat}

-- A match does not go back.
theorem Matches.le (h : expr.Matches text i j) : i ≤ j := by
  induction expr generalizing i j with
  | empty => exact Nat.le_of_eq h
  | one chars => exact h.2 ▸ Nat.le_succ i
  | look assertion => exact Nat.le_of_eq h.2
  | seq a b iha ihb =>
      obtain ⟨k, ha, hb⟩ := h
      exact Nat.le_trans (iha ha) (ihb hb)
  | alt a b iha ihb =>
      cases h with
      | inl ha => exact iha ha
      | inr hb => exact ihb hb
  | rep body least most lazy ih =>
      obtain ⟨n, -, htimes⟩ := h
      exact Times.le (fun _ _ hbody => ih hbody) htimes

-- A match does not go beyond the end of the text.
theorem Matches.le_length (h : expr.Matches text i j) (hi : i ≤ text.length) : j ≤ text.length := by
  induction expr generalizing i j with
  | empty => exact h ▸ hi
  | one chars =>
      obtain ⟨⟨c, hc, -⟩, rfl⟩ := h
      obtain ⟨hlt, -⟩ := List.getElem?_eq_some_iff.mp hc
      exact hlt
  | look assertion => exact h.2 ▸ hi
  | seq a b iha ihb =>
      obtain ⟨k, ha, hb⟩ := h
      exact ihb hb (iha ha hi)
  | alt a b iha ihb =>
      cases h with
      | inl ha => exact iha ha hi
      | inr hb => exact ihb hb hi
  | rep body least most lazy ih =>
      obtain ⟨n, -, htimes⟩ := h
      induction n generalizing i with
      | zero => exact htimes ▸ hi
      | succ n ihn =>
          obtain ⟨k, hbody, hrest⟩ := htimes
          exact ihn (ih hbody hi) hrest

end Expr

end Descent.Regex
