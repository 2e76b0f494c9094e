import Descent.Proofs.Lexemes
import Descent.Proofs.Yields
import Mathlib.Data.List.TakeWhile

namespace Descent

namespace Scanner

-- The number of characters in the longest beginning of a text all of whose characters are accepted.
structure IsRunLength (accepts : Char → Bool) (text : List Char) (count : Nat) : Prop where
  le_length : count ≤ text.length
  accepted : ∀ c ∈ text.take count, accepts c
  greatest : ∀ n ≤ text.length, (∀ c ∈ text.take n, accepts c) → n ≤ count

-- A count, or the greatest one that is allowed.
def capped : Option Nat → Nat → Nat
  | none, count => count
  | some most, count => min most count

variable {accepts : Char → Bool} {text : List Char} {count other : Nat}

theorem IsRunLength.unique (h : IsRunLength accepts text count)
    (hother : IsRunLength accepts text other) : other = count := by
  have hle := h.greatest other hother.le_length hother.accepted
  have hge := hother.greatest count h.le_length h.accepted
  omega

theorem take_eq_takeWhile_of_accepted {n : Nat} (h : ∀ c ∈ text.take n, accepts c) :
    text.take n = (text.takeWhile accepts).take n := by
  rw [List.take_takeWhile, List.takeWhile_eq_self_iff.mpr h]

theorem isRunLength_takeWhile (accepts : Char → Bool) (text : List Char) :
    IsRunLength accepts text (text.takeWhile accepts).length := by
  refine ⟨(List.takeWhile_prefix accepts).length_le, ?_, fun n hn h => ?_⟩
  · rw [take_length_takeWhile]
    exact List.all_eq_true.mp List.all_takeWhile
  · have hlength := congrArg List.length (take_eq_takeWhile_of_accepted h)
    rw [List.length_take, List.length_take, Nat.min_eq_left hn] at hlength
    omega

theorem prefixOf_eq_take (h : IsRunLength accepts text count) (most : Option Nat) :
    prefixOf accepts most text = text.take (capped most count) := by
  rw [(isRunLength_takeWhile accepts text).unique h]
  cases most with
  | none => exact (take_length_takeWhile accepts text).symm
  | some n =>
      simp only [prefixOf, capped]
      rw [← List.take_takeWhile, ← List.take_take, take_length_takeWhile]

theorem capped_le (most : Option Nat) (count : Nat) : capped most count ≤ count := by
  cases most with
  | none => exact Nat.le_refl count
  | some n => exact Nat.min_le_right n count

theorem length_prefixOf (h : IsRunLength accepts text count) (most : Option Nat) :
    (prefixOf accepts most text).length = capped most count := by
  have hle := capped_le most count
  have hlength := h.le_length
  rw [prefixOf_eq_take h, List.length_take]
  omega

end Scanner

namespace Grammar

open Scanner

-- Of the characters that are in the set, or outside of it, the scanner takes as many as there are in
-- a row and as it is allowed to. It fails behind the blanks where these are fewer than it needs.
theorem run_takes_bounded_run {α : Type} (rules : Rules α) (matcher : String) (negated : Bool)
    (least : Nat) (most : Option Nat) (cursor : Cursor) :
    let start := cursor.skipBlank
    let accepts c := (CharSet.ofString matcher).contains c == !negated
    ∃ count, IsRunLength accepts start.rest count ∧
      (∀ other, IsRunLength accepts start.rest other → other = count) ∧
      let taken := capped most count
      ∀ result stop, Yields rules (.scan (.run matcher negated least most)) cursor result stop ↔
        (least ≤ taken ∧ result = .ok (.token (String.ofList (start.rest.take taken))) ∧
          stop = start.rewind
            (start.toPlace.after (start.rest.take taken) (start.rest.drop taken))) ∨
        (taken < least ∧ result = .error ⟨start.pos, matcher⟩ ∧ stop = cursor) := by
  intro start accepts
  have hcount := isRunLength_takeWhile accepts start.rest
  refine ⟨_, hcount, fun other hother => hcount.unique hother, ?_⟩
  intro taken result stop
  have haccepts : (fun c => (CharSet.ofString matcher).contains c != negated) = accepts := by
    funext c
    cases negated <;> simp [accepts]
  have hlength := length_prefixOf hcount most
  have hstart : scanStart (.run matcher negated least most) cursor = start := rfl
  by_cases hshort : taken < least
  · have hlex : (Scanner.run matcher negated least most).lex (α := α) cursor.policy start.rest =
        .error ⟨0, matcher⟩ := by
      simp only [Scanner.lex, haccepts, hlength]
      exact if_pos hshort
    rw [(yields_scan_of_miss hstart hlex).iff]
    simp only [hshort, Nat.not_le.mpr hshort, true_and, false_and, false_or]
    exact Iff.rfl
  · have hlex : (Scanner.run matcher negated least most).lex (α := α) cursor.policy start.rest =
        .ok (.token (start.rest.take taken) (start.rest.drop taken)) := by
      simp only [Scanner.lex, haccepts, hlength]
      rw [if_neg hshort, prefixOf_eq_take hcount]
    rw [(yields_scan_of_lex hstart hlex).iff]
    simp only [hshort, Nat.le_of_not_lt hshort, true_and, false_and, or_false]
    exact Iff.rfl

end Grammar

end Descent
