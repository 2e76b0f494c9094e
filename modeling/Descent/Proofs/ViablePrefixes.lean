import Descent.Proofs.WholeTexts

namespace Descent

open Text
open Json (Blank blank_nil Token StartsWith significant exists_blank_append_significant)

-- What precedes the place of the error can be completed to a text that is read. Where the text was
-- only left unparsed from there on, what precedes is read as it stands.
def HasViablePrefix {β : Type} (read : String → Except ParseError β) (input : String)
    (error : ParseError) : Prop :=
  ∃ before after, input.toList = before ++ after ∧ byteSize before = error.pos ∧
    (∃ completion, (read (String.ofList (before ++ completion))).isOk) ∧
    ∀ pos remaining, error = .unparsed pos remaining → (read (String.ofList before)).isOk

namespace Grammar

variable {α : Type} {rules : Rules α} {rank : String → Nat} {grammar : Grammar α}
  {cursor middle stop : Cursor} {scanner : Scanner} {failure : Failure} {text : List Char}
  {Accepted Inner : List Char → Prop}

-- The failure lies behind a beginning of the text ahead that can be completed to one of these.
def Viable (Accepted : List Char → Prop) (cursor : Cursor) (failure : Failure) : Prop :=
  ∃ text more completion, cursor.rest = text ++ more ∧
    failure.pos = cursor.pos + byteSize text ∧ Accepted (text ++ completion)

theorem exists_completion (h : Accepted text) : ∃ completion, Accepted (text ++ completion) :=
  ⟨[], by rwa [List.append_nil]⟩

theorem Viable.behind (h : Viable Inner middle failure) (hreaches : cursor.Reaches middle)
    (hrest : cursor.rest = text ++ middle.rest)
    (hcompletes : ∀ inner, Inner inner → ∃ completion, Accepted (text ++ inner ++ completion)) :
    Viable Accepted cursor failure := by
  obtain ⟨inner, more, completion, hinner, hpos, haccepted⟩ := h
  obtain ⟨last, hlast⟩ := hcompletes _ haccepted
  refine ⟨text ++ inner, more, completion ++ last, ?_, ?_, ?_⟩
  · rw [hrest, hinner, List.append_assoc]
  · rw [hpos, hreaches.place.pos_eq hrest, byteSize_append, Nat.add_assoc]
  · simpa using hlast

theorem Viable.mono (h : Viable Inner cursor failure)
    (hcompletes : ∀ inner, Inner inner → ∃ completion, Accepted (inner ++ completion)) :
    Viable Accepted cursor failure :=
  have hrest : cursor.rest = [] ++ cursor.rest := rfl
  h.behind (.refl _) hrest hcompletes

theorem Viable.of_place_eq (h : Viable Accepted middle failure)
    (hplace : middle.toPlace = cursor.toPlace) : Viable Accepted cursor failure := by
  obtain ⟨text, more, completion, hrest, hpos, haccepted⟩ := h
  exact ⟨text, more, completion, hplace ▸ hrest, hplace ▸ hpos, haccepted⟩

-- A token that is missed leaves nothing behind but blanks.
theorem Ready.viable_of_scan (h : Ready cursor)
    (hyields : Yields rules (.scan scanner) cursor (.error failure) stop)
    (hkeeps : scanner.keepsBlank isAsciiBlank = false)
    (hscanner : ∀ quotes, scanner ≠ .quoted quotes)
    (hcompletes : ∀ blank, Blank blank → ∃ completion, Accepted (blank ++ completion)) :
    Viable Accepted cursor failure := by
  obtain ⟨blank, miss, hblank, hrest, hlex, hpos, -⟩ := h.exists_miss hkeeps hyields
  obtain ⟨completion, haccepted⟩ := hcompletes blank hblank
  refine ⟨blank, _, completion, hrest, ?_, haccepted⟩
  rw [hpos, Scanner.offset_eq_zero_of_lex hscanner hlex, Nat.add_zero]

-- A literal that is missed can be added.
theorem Ready.viable_of_exact {word : String} {first : Char} (h : Ready cursor)
    (hword : StartsWith word first)
    (hyields : Yields rules (.exact word) cursor (.error failure) stop) :
    Viable (Token word.toList) cursor failure :=
  h.viable_of_scan hyields (keepsBlank_exact hword) nofun fun _ hblank => ⟨word.toList, .mk hblank⟩

-- The texts that the grammar reads, with the blanks before them. Where it fails, what it has read
-- by then is the beginning of one of them.
structure Dialect (rules : Rules α) (grammar : Grammar α) (Accepted : List Char → Prop) : Prop where
  spaced : ∀ {blank text}, Blank blank → Accepted text → Accepted (blank ++ text)
  sound : ∀ {cursor node stop}, Ready cursor → Yields rules grammar cursor (.ok node) stop →
    ∃ text, Accepted text ∧ cursor.rest = text ++ stop.rest
  viable : ∀ {cursor failure stop}, Ready cursor →
    Yields rules grammar cursor (.error failure) stop → Viable Accepted cursor failure

theorem Dialect.hasViablePrefix (h : Dialect rules grammar Accepted)
    (hranked : rules.RankedBy rank) {β : Type} {read : String → Except ParseError β}
    (haccepts : ∀ text blank, Accepted text → Blank blank →
      (read (String.ofList (text ++ blank))).isOk)
    {input : String} {error : ParseError}
    (herror : parseAll rules grammar input.toList = .error error) :
    HasViablePrefix read input error := by
  have hready := ready_textStart input.toList
  obtain ⟨blank, hblank, hinput⟩ := exists_blank_append_significant input.toList
  rw [← rest_textStart] at hinput
  have hstart : (textStart input.toList).pos = byteSize blank := by
    rw [(reaches_textStart input.toList).place.pos_eq hinput]
    exact Nat.zero_add _
  obtain ⟨failure, stop, hyields, rfl⟩ | ⟨node, stop, hyields, rfl⟩ :=
    exists_of_parseAll_eq_error hranked herror
  · obtain ⟨text, more, completion, hrest, hpos, haccepted⟩ := h.viable hready hyields
    refine ⟨blank ++ text, more, ?_, ?_, ⟨completion, ?_⟩, nofun⟩
    · rw [hinput, hrest, List.append_assoc]
    · rw [byteSize_append, ← hstart]
      exact hpos.symm
    · have hread := haccepts _ [] (h.spaced hblank haccepted) blank_nil
      rwa [List.append_nil, ← List.append_assoc] at hread
  · obtain ⟨text, haccepted, hrest⟩ := h.sound hready hyields
    obtain ⟨last, hlast, hbehind⟩ := exists_blank_append_significant stop.rest
    have hskip := (hready.of_yields hyields).rest_skipBlank
    have hpos : stop.skipBlank.pos = byteSize (blank ++ text ++ last) := by
      rw [stop.reaches_skipBlank.place.pos_eq (hskip ▸ hbehind), hyields.reaches.place.pos_eq hrest,
        hstart, byteSize_append, byteSize_append]
    have hread := haccepts _ last (h.spaced hblank haccepted) hlast
    refine ⟨blank ++ text ++ last, significant stop.rest, ?_, hpos.symm, ⟨[], ?_⟩,
      fun _ _ _ => hread⟩
    · rw [hinput, hrest, hbehind]
      simp [← hbehind]
    · rwa [List.append_nil]

end Grammar

end Descent
