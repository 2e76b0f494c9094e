import Descent.Proofs.Json.Completeness
import Descent.Proofs.WholeTexts

namespace Descent.Json

open Grammar Scanner Text

-- No value starts with a value: a bracket stands before it.
theorem rules_rankedBy : rules.RankedBy fun _ => 0 := by
  intro name definition hdefinition other hother
  simp only [Rules.definition?, SortedMap.find?, rules] at hdefinition
  split at hdefinition
  · cases hdefinition
    cases hother with
    | any hmem hreached =>
        simp only [List.mem_cons, List.not_mem_nil, or_false] at hmem
        rcases hmem with rfl | rfl | rfl | rfl | rfl | rfl | rfl
        · cases hreached with
          | bind hword => cases hword
        · cases hreached with
          | bind hword => cases hword
        · cases hreached with
          | bind hword => cases hword
        · cases hreached
        · cases hreached
        · cases hreached with
          | map hseq => exact absurd hseq (not_leftReaches_seq_scan (by simp [Scanner.IsPassable]) _ _)
        · cases hreached with
          | map hseq => exact absurd hseq (not_leftReaches_seq_scan (by simp [Scanner.IsPassable]) _ _)
  · cases hdefinition

-- A text is decoded where a value is read and nothing but blanks is left.
theorem decode_eq_ok_iff {input : String} {x : Value Empty} :
    decode input = .ok x ↔
      ∃ node stop, Yields rules (.rule "value") (textStart input.toList) (.ok node) stop ∧
        Blank stop.rest ∧ valueOf node = x :=
  parseAll_map_eq_ok_iff rules_rankedBy

theorem isDocument_of_decode {input : String} {x : Value Empty} (h : decode input = .ok x) :
    IsDocument input.toList x := by
  obtain ⟨node, stop, hyields, hstop, rfl⟩ := decode_eq_ok_iff.mp h
  obtain ⟨text, x, hitem, rfl, hrest⟩ :=
    sound_value _ _ _ _ (Nat.lt_succ_self _) (ready_textStart _) hyields
  obtain ⟨blank, hblank, hinput⟩ := exists_blank_append_significant input.toList
  obtain ⟨hinner, hwritten⟩ := hitem
  rw [rest_textStart] at hrest
  refine ⟨_, stop.rest, ?_, .mk (hblank.append hinner) hwritten, hstop⟩
  rw [hinput, hrest]
  simp

theorem exists_head_of_written {text : List Char} {x : Value Empty} (h : Written text x) :
    ∃ c rest, text = c :: rest ∧ isAsciiBlank c = false := by
  cases h with
  | null | true | false | string | array | object => exact ⟨_, _, rfl, rfl⟩
  | number hformed hvalue =>
      obtain ⟨c, rest, htext, hcontinues⟩ := Numeral.exists_text_eq_cons hformed hvalue
      exact ⟨c, rest, htext, not_isAsciiBlank_of_continues hcontinues⟩

theorem decode_of_isDocument {input : String} {x : Value Empty} (h : IsDocument input.toList x) :
    decode input = .ok x := by
  obtain ⟨body, blank, hinput, hitem, hblank⟩ := h
  cases hitem with
  | @mk before text _ hbefore hwritten =>
      obtain ⟨c, rest, htext, hc⟩ := exists_head_of_written hwritten
      have hstart : (textStart input.toList).rest = text ++ blank := by
        rw [rest_textStart, hinput, List.append_assoc, significant_append hbefore]
        rw [htext]
        rintro _ ⟨⟩
        exact hc
      have hspaced : Spaced Written ([] ++ text) x := .mk (fun _ hc => nomatch hc) hwritten
      obtain ⟨stop, hyields, hstop, -⟩ := complete_value _ _ _ _ _ hspaced (Nat.lt_succ_self _)
        (ready_textStart _) hstart hblank.delimited
      exact decode_eq_ok_iff.mpr ⟨_, stop, hyields, hstop ▸ hblank, rfl⟩

-- The texts that are decoded are the documents of the dialect, and they are decoded as what they
-- stand for. Any other text gives an error.
theorem decode_iff_isDocument (input : String) :
    (∀ x, decode input = .ok x ↔ IsDocument input.toList x) ∧
      ((∃ x, IsDocument input.toList x) ∨ ∃ error, decode input = .error error) := by
  refine ⟨fun x => ⟨isDocument_of_decode, decode_of_isDocument⟩, ?_⟩
  cases hdecode : decode input with
  | ok x => exact .inl ⟨x, isDocument_of_decode hdecode⟩
  | error error => exact .inr ⟨error, rfl⟩

end Descent.Json
