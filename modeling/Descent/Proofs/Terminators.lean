import Descent.Proofs.Boundaries
import Descent.Proofs.Lexemes
import Descent.Proofs.Yields

namespace Descent

open Text

-- One of the terminators starts the text. An empty one ends nothing.
def Terminates (terminators : List String) (text : List Char) : Prop :=
  ∃ terminator ∈ terminators, terminator ≠ "" ∧ terminator.toList <+: text

-- One of the terminators starts at this offset of the input.
def TerminatesAt (terminators : List String) (input : List Char) (pos : Nat) : Prop :=
  ∃ before after, input = before ++ after ∧ pos = byteSize before ∧ Terminates terminators after

-- None of the terminators starts at an offset from `start` up to but not including `stop`.
def Clear (terminators : List String) (input : List Char) (start stop : Nat) : Prop :=
  ∀ pos, start ≤ pos → pos < stop → ¬TerminatesAt terminators input pos

-- A terminator starts with a character that is skipped, and nothing else stands before it.
def Cursor.SkipsTerminator (terminators : List String) (cursor : Cursor) : Prop :=
  ∃ blanks c text, cursor.rest = blanks ++ c :: text ∧
    (∀ blank ∈ blanks ++ [c], cursor.skips blank) ∧ Terminates terminators (c :: text)

-- A terminator starts within the part that has been found.
def TerminatesWithin (terminators : List String) (found rest : List Char) : Prop :=
  ∃ before c after, found = before ++ c :: after ∧ Terminates terminators (c :: after ++ rest)

section Texts

variable {α : Type} (policy : Whitespace) {terminators : List String} {text rest : List Char}

theorem not_terminates_nil : ¬Terminates terminators [] := by
  rintro ⟨terminator, -, hne, hprefix⟩
  refine hne ?_
  rw [← String.ofList_toList (s := terminator), List.prefix_nil.mp hprefix]

theorem not_terminatesWithin_nil : ¬TerminatesWithin terminators [] rest := by
  rintro ⟨before, c, after, hfound, -⟩
  simp at hfound

theorem any_isPrefixOf_iff :
    ((Scanner.proper terminators).map String.toList).any (·.isPrefixOf text) = true ↔
      Terminates terminators text := by
  simp [Scanner.proper, Terminates]

instance : Decidable (Terminates terminators text) := decidable_of_iff _ any_isPrefixOf_iff

-- The text before the first terminator, and what it leaves: no terminator starts within, and one
-- starts behind it unless the text ends there.
theorem exists_before_eq (terminators : List String) (text : List Char) :
    ∃ found rest, Scanner.before ((Scanner.proper terminators).map String.toList) text = found ∧
      text = found ++ rest ∧ (rest = [] ∨ Terminates terminators rest) ∧
      ¬TerminatesWithin terminators found rest := by
  induction text with
  | nil => exact ⟨[], [], rfl, rfl, .inl rfl, not_terminatesWithin_nil⟩
  | cons c text ih =>
      unfold Scanner.before
      by_cases hstarts : Terminates terminators (c :: text)
      · rw [if_pos (any_isPrefixOf_iff.mpr hstarts)]
        exact ⟨[], c :: text, rfl, rfl, .inr hstarts, not_terminatesWithin_nil⟩
      · rw [if_neg (mt any_isPrefixOf_iff.mp hstarts)]
        obtain ⟨found, rest, hbefore, rfl, hrest, hwithin⟩ := ih
        rw [hbefore]
        refine ⟨c :: found, rest, rfl, rfl, hrest, ?_⟩
        rintro ⟨before, d, after, hfound, hterminates⟩
        cases before with
        | nil =>
            cases hfound
            exact hstarts hterminates
        | cons b before =>
            cases hfound
            exact hwithin ⟨before, d, after, rfl, hterminates⟩

theorem before_eq_nil_iff :
    Scanner.before ((Scanner.proper terminators).map String.toList) text = [] ↔
      text = [] ∨ Terminates terminators text := by
  cases text with
  | nil => simp [Scanner.before]
  | cons c text =>
      unfold Scanner.before
      by_cases hstarts : Terminates terminators (c :: text)
      · simp [any_isPrefixOf_iff.mpr hstarts, hstarts]
      · simp [mt any_isPrefixOf_iff.mp hstarts, hstarts]

theorem lex_upTo_eq_error (h : text = [] ∨ Terminates terminators text) :
    Scanner.lex (α := α) policy text (.upTo terminators) =
      .error ⟨0, Scanner.untilExpected terminators⟩ := by
  simp only [Scanner.lex, before_eq_nil_iff.mpr h]

theorem exists_lex_upTo_eq_ok (hne : text ≠ []) (hstarts : ¬Terminates terminators text) :
    ∃ found rest, found ≠ [] ∧ text = found ++ rest ∧
      (rest = [] ∨ Terminates terminators rest) ∧ ¬TerminatesWithin terminators found rest ∧
      Scanner.lex (α := α) policy text (.upTo terminators) = .ok (.token found rest) := by
  obtain ⟨found, rest, hbefore, rfl, hrest, hwithin⟩ := exists_before_eq terminators text
  have hfound : found ≠ [] := by
    rw [← hbefore]
    exact mt before_eq_nil_iff.mp (not_or.mpr ⟨hne, hstarts⟩)
  refine ⟨found, rest, hfound, rfl, hrest, hwithin, ?_⟩
  obtain ⟨c, more, rfl⟩ := List.exists_cons_of_ne_nil hfound
  simp only [Scanner.lex, hbefore, List.drop_left]

end Texts

section Offsets

variable {terminators : List String} {input found rest : List Char} {start middle stop : Nat}

theorem clear_iff_of_clear (hle : middle ≤ stop)
    (hclear : Clear terminators input middle stop) :
    Clear terminators input start stop ↔ Clear terminators input start middle := by
  constructor
  · intro h pos hstart hmiddle
    exact h pos hstart (by omega)
  · intro h pos hstart hstop
    by_cases hmiddle : pos < middle
    · exact h pos hstart hmiddle
    · exact hclear pos (by omega) hstop

-- What stands between two offsets is all that counts.
theorem clear_iff {before : List Char} (hinput : input = before ++ (found ++ rest))
    (hstart : start = byteSize before) (hstop : stop = start + byteSize found) :
    Clear terminators input start stop ↔ ¬TerminatesWithin terminators found rest := by
  constructor
  · rintro hclear ⟨first, c, after, rfl, hterminates⟩
    have hpos := c.utf8Size_pos
    refine hclear (byteSize (before ++ first)) ?_ ?_ ⟨before ++ first, c :: after ++ rest, ?_, rfl,
      hterminates⟩
    · rw [hstart, byteSize_append]
      omega
    · rw [hstop, hstart, byteSize_append, byteSize_append, byteSize_cons]
      omega
    · simp [hinput]
  · rintro hwithin pos hle hlt ⟨first, after, heq, rfl, hterminates⟩
    rw [hinput] at heq
    obtain ⟨part, rfl⟩ := prefix_of_byteSize_le heq (by omega)
    rw [List.append_assoc] at heq
    have heq := List.append_cancel_left heq
    rw [byteSize_append] at hlt
    obtain ⟨behind, rfl⟩ := prefix_of_byteSize_le heq.symm (by omega)
    rw [byteSize_append] at hstop
    rw [List.append_assoc] at heq
    obtain rfl := List.append_cancel_left heq
    cases behind with
    | nil => simp at hstop; omega
    | cons c behind => exact hwithin ⟨part, c, behind, rfl, hterminates⟩

theorem eq_end_or_terminatesAt {before : List Char} (hinput : input = before ++ rest)
    (hstop : stop = byteSize before) (hrest : rest = [] ∨ Terminates terminators rest) :
    stop = byteSize input ∨ TerminatesAt terminators input stop := by
  refine hrest.imp (fun hnil => ?_) fun hterminates => ⟨before, rest, hinput, hstop, hterminates⟩
  rw [hstop, hinput, hnil, List.append_nil]

end Offsets

namespace Cursor

variable {terminators : List String} {cursor : Cursor}

-- The characters that are skipped are looked at for a terminator as they stand.
theorem skipsTerminator_iff :
    cursor.SkipsTerminator terminators ↔ TerminatesWithin terminators
      (cursor.rest.takeWhile cursor.skips) (cursor.rest.dropWhile cursor.skips) := by
  constructor
  · rintro ⟨blanks, c, text, hrest, hskips, hterminates⟩
    have htext : cursor.rest = (blanks ++ [c]) ++ text := by simp [hrest]
    have htake : cursor.rest.takeWhile cursor.skips =
        blanks ++ c :: text.takeWhile cursor.skips := by
      rw [htext, List.takeWhile_append_of_pos hskips, List.append_assoc]
      rfl
    have hdrop : cursor.rest.dropWhile cursor.skips = text.dropWhile cursor.skips := by
      rw [htext, List.dropWhile_append_of_pos hskips]
    refine ⟨blanks, c, text.takeWhile cursor.skips, htake, ?_⟩
    rwa [hdrop, List.cons_append, List.takeWhile_append_dropWhile]
  · rintro ⟨blanks, c, more, htake, hterminates⟩
    refine ⟨blanks, c, more ++ cursor.rest.dropWhile cursor.skips, ?_, ?_, hterminates⟩
    · have happend := List.takeWhile_append_dropWhile (p := cursor.skips) (l := cursor.rest)
      rw [htake, List.append_assoc] at happend
      exact happend.symm
    · intro blank hmem
      refine List.all_eq_true.mp (List.all_takeWhile (l := cursor.rest)) blank ?_
      rw [htake]
      simp only [List.mem_append, List.mem_cons, List.not_mem_nil, or_false] at hmem ⊢
      exact hmem.imp_right .inl

theorem Sound.clear_skipBlank_iff (h : cursor.Sound) :
    Clear terminators cursor.input cursor.pos cursor.skipBlank.pos ↔
      ¬cursor.SkipsTerminator terminators := by
  obtain ⟨before, hinput, hpos⟩ := h
  rw [skipsTerminator_iff]
  refine clear_iff ?_ hpos rfl
  rw [hinput, List.takeWhile_append_dropWhile]

-- No terminator is skipped where none starts with a character that is.
theorem not_skipsTerminator
    (h : ∀ terminator ∈ terminators, ∀ c ∈ terminator.toList.head?, cursor.skips c = false) :
    ¬cursor.SkipsTerminator terminators := by
  rintro ⟨blanks, c, text, -, hskips, terminator, hmem, hne, hprefix⟩
  have hhead : terminator.toList.head? = some c := by
    cases hlist : terminator.toList with
    | nil => exact absurd (by rw [← String.ofList_toList (s := terminator), hlist]) hne
    | cons d more =>
        rw [hlist] at hprefix
        rw [(List.cons_prefix_cons.mp hprefix).1]
        rfl
  have hskipped := hskips c (by simp)
  rw [h terminator hmem c hhead] at hskipped
  cases hskipped

end Cursor

namespace Grammar

variable {α : Type} {cursor : Cursor}

-- A text up to a terminator is cut off in front of the first one behind the blanks. Whether there
-- is one among the blanks is not looked at: they are skipped in any case.
theorem clear_iff_not_skipsTerminator (rules : Rules α) (terminators : List String)
    (h : cursor.Sound) :
    let start := cursor.skipBlank
    let scanner : Grammar α := .scan (.upTo terminators)
    (start.rest = [] ∨ Terminates terminators start.rest →
      Yields rules scanner cursor (.error ⟨start.pos, Scanner.untilExpected terminators⟩) cursor) ∧
    (start.rest ≠ [] → ¬Terminates terminators start.rest →
      ∃ text stop, Yields rules scanner cursor (.ok (.token (String.ofList text))) stop ∧
        text ≠ [] ∧ cursor.slice start.pos stop.pos = text ∧
        (stop.pos = byteSize cursor.input ∨ TerminatesAt terminators cursor.input stop.pos) ∧
        Clear terminators cursor.input start.pos stop.pos ∧
        (Clear terminators cursor.input cursor.pos stop.pos ↔
          ¬cursor.SkipsTerminator terminators)) := by
  intro start scanner
  have hstart : scanStart (.upTo terminators) cursor = start := rfl
  constructor
  · intro hends
    exact yields_scan_of_miss hstart (lex_upTo_eq_error cursor.policy hends)
  · intro hne hstarts
    obtain ⟨found, rest, hfound, hrest, hbehind, hwithin, hlex⟩ :=
      exists_lex_upTo_eq_ok (α := α) cursor.policy hne hstarts
    let stop := start.rewind (start.toPlace.after found rest)
    have hyields : Yields rules scanner cursor _ stop := yields_scan_of_lex hstart hlex
    have hsound : start.Sound := h.of_reaches cursor.reaches_skipBlank
    have hslice : cursor.slice start.pos stop.pos = found := hsound.slice_eq hrest rfl
    obtain ⟨before, hinput, hpos⟩ := hsound
    rw [hrest] at hinput
    have hclear : Clear terminators cursor.input start.pos stop.pos :=
      (clear_iff hinput hpos rfl).mpr hwithin
    have hbefore : cursor.input = (before ++ found) ++ rest := by
      rw [List.append_assoc]
      exact hinput
    have hstop : stop.pos = byteSize (before ++ found) := by
      rw [byteSize_append, ← hpos]
      rfl
    have hend := eq_end_or_terminatesAt hbefore hstop hbehind
    have hle : start.pos ≤ stop.pos := Nat.le_add_right _ _
    refine ⟨found, stop, hyields, hfound, hslice, hend, hclear, ?_⟩
    rw [clear_iff_of_clear hle hclear]
    exact h.clear_skipBlank_iff

-- The text begins with the terminator, a line feed, and it is skipped.
theorem skips_terminator_at_line_feed :
    let cursor := Cursor.ofInput "\nabc".toList .ascii
    let stop := cursor.rewind ⟨4, []⟩
    let terminators := ["\n"]
    cursor.Sound ∧
      Yields ({} : Rules Unit) (.scan (.upTo terminators)) cursor (.ok (.token "abc")) stop ∧
      cursor.SkipsTerminator terminators ∧
      ¬Clear terminators cursor.input cursor.pos stop.pos := by
  intro cursor stop terminators
  have hsound : cursor.Sound := Cursor.sound_ofInput _ _
  have hyields : Yields ({} : Rules Unit) (.scan (.upTo terminators)) cursor (.ok (.token "abc"))
      stop := ⟨[], 1, rfl⟩
  have hskips : ∀ blank ∈ [] ++ ['\n'], cursor.skips blank := by
    simp [cursor, Cursor.ofInput, Cursor.skips, Whitespace.accepts, isAsciiBlank]
  have hskipped : cursor.SkipsTerminator terminators :=
    ⟨[], '\n', "abc".toList, rfl, hskips, by decide⟩
  refine ⟨hsound, hyields, hskipped, fun hclear => ?_⟩
  obtain ⟨-, hmatches⟩ := clear_iff_not_skipsTerminator ({} : Rules Unit) terminators hsound
  obtain ⟨_, _, hfound, -, -, -, -, hiff⟩ := hmatches (by decide) (by decide)
  obtain ⟨-, rfl⟩ := hyields.unique hfound
  exact hiff.mp hclear hskipped

theorem not_forall_clear :
    ¬∀ (rules : Rules Unit) (terminators : List String) (cursor stop : Cursor) (node : Node Unit),
      cursor.Sound → Yields rules (.scan (.upTo terminators)) cursor (.ok node) stop →
      Clear terminators cursor.input cursor.pos stop.pos := by
  intro hall
  have hyields : Yields ({} : Rules Unit) (.scan (.upTo ["\n"])) (.ofInput "\nabc".toList .ascii)
      _ _ := ⟨[], 1, rfl⟩
  refine hall {} _ _ _ _ (Cursor.sound_ofInput _ _) hyields 0 (Nat.le_refl 0) (by decide) ?_
  exact ⟨[], "\nabc".toList, rfl, rfl, by decide⟩

end Grammar

end Descent
