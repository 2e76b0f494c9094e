import Descent.Answer
import Descent.Proofs.Termination
import Descent.Proofs.Tokens

namespace Descent.Grammar

open Text
open Json (Blank significant significant_eq_nil_iff)

variable {α : Type} {rules : Rules α} {rank : String → Nat} {grammar : Grammar α}
  {input : List Char} {node : Node α} {error : ParseError}

-- Where the match begins, behind the blanks at the start of a text.
def textStart (input : List Char) : Cursor := (Cursor.ofInput input .ascii).skipBlank

theorem ready_textStart (input : List Char) : Ready (textStart input) :=
  have hready : Ready (Cursor.ofInput input .ascii) := ⟨rfl, rfl, Nat.le_refl _⟩
  hready.skipBlank

theorem rest_textStart (input : List Char) : (textStart input).rest = significant input :=
  have hready : Ready (Cursor.ofInput input .ascii) := ⟨rfl, rfl, Nat.le_refl _⟩
  hready.rest_skipBlank

theorem reaches_textStart (input : List Char) :
    (Cursor.ofInput input .ascii).Reaches (textStart input) := Cursor.reaches_skipBlank _

theorem parseAll_eq (rules : Rules α) (grammar : Grammar α) (input : List Char) :
    parseAll rules grammar input =
      (Answer.ofOutcome (run rules grammar (textStart input))).toExcept := rfl

theorem Ready.atEnd_skipBlank_iff {cursor : Cursor} (h : Ready cursor) :
    cursor.skipBlank.atEnd ↔ Blank cursor.rest := by
  rw [Cursor.atEnd, h.rest_skipBlank, List.isEmpty_iff, significant_eq_nil_iff]

theorem parseAll_eq_error_of_map {β : Type} {f : Node α → β}
    (h : (parseAll rules grammar input).map f = .error error) :
    parseAll rules grammar input = .error error := by
  cases hparse : parseAll rules grammar input with
  | error inner =>
      rw [hparse] at h
      cases h
      rfl
  | ok node =>
      rw [hparse] at h
      cases h

section Ranked

variable (hranked : rules.RankedBy rank)

include hranked

-- A text is accepted where the grammar matches and nothing but blanks is left.
theorem parseAll_eq_ok_iff :
    parseAll rules grammar input = .ok node ↔
      ∃ stop, Yields rules grammar (textStart input) (.ok node) stop ∧ Blank stop.rest := by
  have hreturns := returns_run hranked grammar (textStart input)
  have hready := ready_textStart input
  rw [parseAll_eq, Answer.toExcept_ofOutcome_eq_ok_iff]
  constructor
  · rintro ⟨hresult, hend⟩
    have hyields := hreturns.yields
    rw [hresult] at hyields
    exact ⟨_, hyields, (hready.of_yields hyields).atEnd_skipBlank_iff.mp hend⟩
  · rintro ⟨stop, hyields, hblank⟩
    obtain ⟨hresult, rfl⟩ := hreturns.yields.unique hyields
    exact ⟨hresult, (hready.of_yields hyields).atEnd_skipBlank_iff.mpr hblank⟩

theorem parseAll_map_eq_ok_iff {β : Type} {f : Node α → β} {x : β} :
    (parseAll rules grammar input).map f = .ok x ↔
      ∃ node stop, Yields rules grammar (textStart input) (.ok node) stop ∧ Blank stop.rest ∧
        f node = x := by
  constructor
  · intro h
    cases hparse : parseAll rules grammar input with
    | error error =>
        rw [hparse] at h
        cases h
    | ok node =>
        rw [hparse] at h
        cases h
        obtain ⟨stop, hyields, hblank⟩ := (parseAll_eq_ok_iff hranked).mp hparse
        exact ⟨node, stop, hyields, hblank, rfl⟩
  · rintro ⟨node, stop, hyields, hblank, rfl⟩
    rw [(parseAll_eq_ok_iff hranked).mpr ⟨stop, hyields, hblank⟩]
    rfl

theorem exists_of_parseAll_eq_error (h : parseAll rules grammar input = .error error) :
    (∃ failure stop, Yields rules grammar (textStart input) (.error failure) stop ∧
      error = .unmatched failure) ∨
    ∃ node stop, Yields rules grammar (textStart input) (.ok node) stop ∧
      error = .unparsed stop.skipBlank.pos (String.ofList stop.skipBlank.rest) := by
  have hyields := (returns_run hranked grammar (textStart input)).yields
  rw [parseAll_eq] at h
  cases hresult : (run rules grammar (textStart input)).result with
  | error failure =>
      rw [hresult] at hyields
      simp only [Answer.ofOutcome, hresult, Answer.toExcept] at h
      cases h
      exact .inl ⟨failure, _, hyields, rfl⟩
  | ok node =>
      rw [hresult] at hyields
      simp only [Answer.ofOutcome, hresult, Answer.toExcept] at h
      split at h
      · rename_i herror
        cases h
        split at herror <;> cases herror
        exact .inr ⟨node, _, hyields, rfl⟩
      · cases h

end Ranked

end Descent.Grammar
