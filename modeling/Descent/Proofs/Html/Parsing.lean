import Descent.Proofs.Html.Completeness
import Descent.Proofs.WholeTexts

namespace Descent.Html

open Grammar Scanner Text
open Json (Blank Token token_self)

variable {input : String} {tag : Tag} {error : ParseError} {blank text : List Char}

-- No tag starts with a tag: a bracket stands before it.
theorem rules_rankedBy : rules.RankedBy fun _ => 0 := by
  intro name definition hdefinition other hother
  have hmem := SortedMap.mem_of_find? hdefinition
  simp only [rules, List.mem_singleton, Prod.mk.injEq] at hmem
  obtain ⟨-, rfl⟩ := hmem
  cases hother with
  | map hseq =>
      cases hseq.of_seq_cons with
      | inl hopening =>
          exact absurd hopening (not_leftReaches_seq_scan (by simp [Scanner.IsPassable]) _ _)
      | inr hrest => exact absurd hrest.1 not_passable_opening

section Parse

variable {node : Node Tag}

theorem exists_tagNode_of_parseAll (h : parseAll rules (.rule "tag") input.toList = .ok node) :
    ∃ tag, node = tagNode tag := by
  obtain ⟨stop, hyields, -⟩ := (parseAll_eq_ok_iff rules_rankedBy).mp h
  obtain ⟨-, tag, -, hnode, -⟩ := sound_tag _ _ _ _ (Nat.lt_succ_self _) (ready_textStart _) hyields
  exact ⟨tag, hnode⟩

theorem parse_eq_ok_iff_parseAll :
    parse input = .ok tag ↔ parseAll rules (.rule "tag") input.toList = .ok (tagNode tag) := by
  unfold parse
  cases hparse : parseAll rules (.rule "tag") input.toList with
  | error error => exact ⟨nofun, nofun⟩
  | ok node =>
      obtain ⟨other, rfl⟩ := exists_tagNode_of_parseAll hparse
      constructor
      · rintro ⟨⟩
        rfl
      · rintro ⟨⟩
        rfl

-- What is read is always a tag, so no error but those of the grammar occurs.
theorem parseAll_eq_error_of_parse (h : parse input = .error error) :
    parseAll rules (.rule "tag") input.toList = .error error := by
  cases hparse : parseAll rules (.rule "tag") input.toList with
  | error inner =>
      unfold parse at h
      rw [hparse] at h
      cases h
      rfl
  | ok node =>
      obtain ⟨tag, rfl⟩ := exists_tagNode_of_parseAll hparse
      cases (parse_eq_ok_iff_parseAll.mpr hparse).symm.trans h

-- A text is parsed where a tag is read and nothing but blanks is left.
theorem parse_eq_ok_iff :
    parse input = .ok tag ↔
      ∃ stop, Yields rules (.rule "tag") (textStart input.toList) (.ok (tagNode tag)) stop ∧
        Blank stop.rest := by
  rw [parse_eq_ok_iff_parseAll, parseAll_eq_ok_iff rules_rankedBy]

end Parse

section Blanks

-- Blanks before a tag belong to it, however many there are.
theorem Written.pad (hblank : Blank blank) (h : Written text tag) :
    Written (blank ++ text) tag := by
  obtain ⟨⟨hopener, hformed, hword, hentries, hhead, hcloser⟩, hbody⟩ := h
  rw [← List.append_assoc, ← List.append_assoc]
  exact .mk (.mk (hopener.of_blank hblank) hformed hword hentries hhead hcloser) hbody

theorem Written.strip (h : Written text tag) :
    ∃ blank more, Blank blank ∧ text = blank ++ '<' :: more ∧ Written ('<' :: more) tag := by
  obtain ⟨⟨⟨hblank⟩, hformed, hword, hentries, hhead, hcloser⟩, hbody⟩ := h
  have hopener : Token ['<'] ['<'] := token_self _
  refine ⟨_, _, hblank, ?_, .mk (.mk hopener hformed hword hentries hhead hcloser) hbody⟩
  simp

end Blanks

theorem parse_of_isDocument (h : IsDocument input.toList tag) : parse input = .ok tag := by
  obtain ⟨body, last, hinput, hwritten, hlast⟩ := h
  obtain ⟨blank, more, hblank, rfl, hinner⟩ := hwritten.strip
  have hrest : (textStart input.toList).rest = '<' :: more ++ last := by
    rw [rest_textStart, hinput, List.append_assoc]
    refine Json.significant_append hblank ?_
    rintro _ ⟨⟩
    rfl
  obtain ⟨stop, hyields, hstop, -⟩ := complete_tag _ _ _ _ _ hinner (Nat.lt_succ_self _)
    (ready_textStart _) hrest trivial
  exact parse_eq_ok_iff.mpr ⟨stop, hyields, hstop ▸ hlast⟩

end Descent.Html
