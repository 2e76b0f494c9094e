import Descent.Proofs.SourceLines
import Mathlib.Data.List.DropRight

namespace Descent

open Text

namespace Text

-- What the line of a place holds before it, if `before` is all of the text before it.
def lineBefore (before : List Char) : List Char := before.rtakeWhile (· ≠ '\n')

-- What the line of a place holds behind it, if `after` is all of the text behind it.
def lineBehind (after : List Char) : List Char := after.takeWhile (· ≠ '\n')

@[simp] theorem lineBefore_break (before : List Char) : lineBefore (before ++ ['\n']) = [] :=
  List.rtakeWhile_concat_neg _ _ _ (by simp)

theorem lineBefore_concat_of_ne {c : Char} (before : List Char) (h : c ≠ '\n') :
    lineBefore (before ++ [c]) = lineBefore before ++ [c] :=
  List.rtakeWhile_concat_pos _ _ _ (by simpa using h)

theorem exists_lines_eq_lineBehind (after : List Char) :
    ∃ below, lines after = lineBehind after :: below := by
  induction after with
  | nil => exact ⟨[], rfl⟩
  | cons c rest ih =>
      by_cases hc : c = '\n'
      · exact ⟨lines rest, by simp [lineBehind, hc, lines_break]⟩
      · obtain ⟨below, hlines⟩ := ih
        refine ⟨below, ?_⟩
        rw [lines_cons_of_ne hc hlines]
        simp [lineBehind, hc]

-- The lines of a text that goes on behind a place. Those that end before it are as many as there
-- are line breaks, and hold what comes before the line of the place.
theorem exists_lines_append (before : List Char) :
    ∃ above, above.length = before.count '\n' ∧
      byteSize before = (above.map (byteSize · + 1)).sum + byteSize (lineBefore before) ∧
      ∀ {after line below}, lines after = line :: below →
        lines (before ++ after) = above ++ (lineBefore before ++ line) :: below := by
  -- The last character before the place goes over to the text behind it.
  induction before using List.reverseRecOn with
  | nil => exact ⟨[], rfl, by simp [lineBefore], fun h => by simpa [lineBefore] using h⟩
  | append_singleton before c ih =>
      obtain ⟨above, hlength, hsize, hlines⟩ := ih
      by_cases hc : c = '\n'
      · subst hc
        refine ⟨above ++ [lineBefore before], by simp [hlength], ?_, fun h => ?_⟩
        · rw [byteSize_append, hsize, List.map_append, List.sum_append]
          simp [Char.utf8Size, Nat.add_assoc]
        · rw [List.append_assoc, List.singleton_append, hlines (lines_break _), h]
          simp
      · refine ⟨above, by simp [hlength, hc], ?_, fun h => ?_⟩
        · rw [byteSize_append, hsize, lineBefore_concat_of_ne before hc, byteSize_append,
            Nat.add_assoc]
        · rw [List.append_assoc, List.singleton_append, hlines (lines_cons_of_ne hc h),
            lineBefore_concat_of_ne before hc]
          simp

theorem length_le_byteSize (text : List Char) : text.length ≤ byteSize text := by
  induction text with
  | nil => exact Nat.le_refl 0
  | cons c rest ih =>
      have := c.utf8Size_pos
      rw [List.length_cons, byteSize_cons]
      omega

-- A text has as many bytes as characters if they are ASCII characters, and else more.
theorem byteSize_eq_length_iff {text : List Char} :
    byteSize text = text.length ↔ ∀ c ∈ text, c.val ≤ 127 := by
  induction text with
  | nil => simp
  | cons c rest ih =>
      have hpos := c.utf8Size_pos
      have hrest := length_le_byteSize rest
      rw [List.forall_mem_cons, ← ih, ← Char.utf8Size_eq_one_iff, byteSize_cons, List.length_cons]
      omega

end Text

namespace LinePosition

theorem Locates.unique {pieces : List (List Char)} {position other : LinePosition} {offset : Nat}
    (h : position.Locates pieces offset) (hother : other.Locates pieces offset) :
    position = other := by
  obtain hbefore | heq | hafter := before_trichotomy position other
  · exact absurd (h.lt_of_before hother hbefore) (Nat.lt_irrefl _)
  · exact heq
  · exact absurd (hother.lt_of_before h hafter) (Nat.lt_irrefl _)

end LinePosition

namespace Location

open LinePosition

variable {before after : List Char}

-- A place between two parts of a text is on the line behind the line breaks before it.
theorem exists_locates_append (before after : List Char) :
    ∃ pieces, lines (before ++ after) = pieces ∧
      lineAt pieces (before.count '\n' + 1) = lineBefore before ++ lineBehind after ∧
      Locates pieces ⟨before.count '\n' + 1, byteSize (lineBefore before)⟩ (byteSize before) := by
  obtain ⟨above, hlength, hsize, hlines⟩ := exists_lines_append before
  obtain ⟨below, hbehind⟩ := exists_lines_eq_lineBehind after
  have hline : lineAt (above ++ (lineBefore before ++ lineBehind after) :: below)
      (before.count '\n' + 1) = lineBefore before ++ lineBehind after := by
    simp [lineAt, ← hlength]
  refine ⟨_, hlines hbehind, hline, by simp, by simp [← hlength], ?_, ?_⟩
  · rw [hline, byteSize_append]
    exact Nat.le_add_right _ _
  · rw [hsize]
    simp [bytesAbove, ← hlength]

theorem linePosition_append (before after : List Char) :
    (ofOffset (before ++ after) (byteSize before)).linePosition =
      ⟨before.count '\n' + 1, byteSize (lineBefore before)⟩ := by
  obtain ⟨pieces, hlines, -, hlocates⟩ := exists_locates_append before after
  have h := locates_linePosition (before ++ after) (byteSize before)
  rw [hlines, byteSize_append, Nat.min_eq_left (Nat.le_add_right _ _)] at h
  exact h.unique hlocates

-- The context of a place shows what its line holds before and behind it. There is no other pointer
-- than the one below.
theorem exists_context_append (before after : List Char) :
    ∃ above below, (ofOffset (before ++ after) (byteSize before)).context =
        above ++ markedLine (before.count '\n' + 1) (lineBefore before ++ lineBehind after) ::
          pointerLine ⟨before.count '\n' + 1, byteSize (lineBefore before)⟩ :: below ∧
      (∀ line ∈ above, ¬ IsPointer line) ∧ ∀ line ∈ below, ¬ IsPointer line := by
  obtain ⟨pieces, hlines, hline, hlocates⟩ := exists_locates_append before after
  have hposition := linePosition_append before after
  have hcontext := context_eq (ofOffset (before ++ after) (byteSize before)) hlines
    (hposition ▸ hlocates) rfl rfl
  rw [hposition, hline] at hcontext
  exact ⟨_, _, hcontext, fun _ => not_isPointer_of_mem_plainLines,
    fun _ => not_isPointer_of_mem_plainLines⟩

-- A number is written in ASCII digits.
theorem val_le_of_mem_toString {number : Nat} {c : Char} (h : c ∈ (toString number).toList) :
    c.val ≤ 127 := by
  have hmem : c ∈ Nat.toDigits 10 number := by simpa using h
  have hdigit := Nat.isDigit_of_mem_toDigits (by decide) (by decide) hmem
  simp only [Char.isDigit, Bool.and_eq_true, decide_eq_true_eq] at hdigit
  exact UInt32.le_trans hdigit.2 (by decide)

theorem utf8ByteSize_margin (number : Nat) :
    (margin number).utf8ByteSize = (margin number).length := by
  have hascii : ∀ c ∈ (margin number).toList, c.val ≤ 127 := by
    have htext : (margin number).toList =
        "  > ".toList ++ (toString number).toList ++ " | ".toList := by
      rw [← String.toList_append, ← String.toList_append]
      rfl
    rw [htext]
    refine List.forall_mem_append.mpr ⟨List.forall_mem_append.mpr ⟨by simp, ?_⟩, by simp⟩
    exact fun _ => val_le_of_mem_toString
  rw [← byteSize_eq_length_iff, byteSize_eq_utf8ByteSize, String.ofList_toList] at hascii
  rw [hascii, String.length_toList]

-- As many characters come before a caret as bytes come before the place in the line shown.
theorem idxOf_pointerLine (position : LinePosition) :
    (pointerLine position).toList.idxOf '^' =
      (margin position.line).length + position.byteOffset := by
  have hblanks : '^' ∉ List.replicate
      ((margin position.line).utf8ByteSize + position.byteOffset) ' ' := by simp
  rw [pointerLine, String.toList_append, String.toList_ofList,
    List.idxOf_append_of_notMem hblanks, List.length_replicate, utf8ByteSize_margin]
  rfl

-- The context of the place between two parts of a text shows its line, with what the line holds
-- before and behind the place, and directly below it a pointer. So many characters come before the
-- caret of the pointer.
def HasCaret (before after : List Char) (column : Nat) : Prop :=
  ∃ above pointer below, (ofOffset (before ++ after) (byteSize before)).context =
      above ++ markedLine (before.count '\n' + 1) (lineBefore before ++ lineBehind after) ::
        pointer :: below ∧
    IsPointer pointer ∧ pointer.toList.idxOf '^' = column

-- As many characters come before the caret as before the place in the line shown.
def PointsUnder (before after : List Char) : Prop :=
  HasCaret before after ((margin (before.count '\n' + 1)).length + (lineBefore before).length)

theorem hasCaret_iff {column : Nat} :
    HasCaret before after column ↔
      column = (margin (before.count '\n' + 1)).length + byteSize (lineBefore before) := by
  obtain ⟨above, below, hcontext, habove, hbelow⟩ := exists_context_append before after
  constructor
  · rintro ⟨above', pointer, below', hother, hpointer, rfl⟩
    have hindex : (above' ++ markedLine (before.count '\n' + 1)
        (lineBefore before ++ lineBehind after) :: pointer :: below')[above'.length + 1]? =
          some pointer := by simp
    rw [← hother, hcontext] at hindex
    have hplace := (isPointer_getElem?_iff habove (not_isPointer_markedLine _ _)
      (isPointer_pointerLine _) hbelow hindex).mp hpointer
    obtain rfl : pointerLine ⟨before.count '\n' + 1, byteSize (lineBefore before)⟩ = pointer := by
      rw [hplace] at hindex
      simpa using hindex
    exact idxOf_pointerLine _
  · rintro rfl
    exact ⟨above, _, below, hcontext, isPointer_pointerLine _, idxOf_pointerLine _⟩

-- The caret is set in by the bytes before the place in the line shown. So it stands under the place
-- as long as the line holds nothing but ASCII characters before it.
theorem caret_under_place_iff_ascii (before after : List Char) :
    (∀ column, HasCaret before after column ↔
      column = (margin (before.count '\n' + 1)).length + byteSize (lineBefore before)) ∧
    (PointsUnder before after ↔ ∀ c ∈ lineBefore before, c.val ≤ 127) := by
  refine ⟨fun _ => hasCaret_iff, ?_⟩
  calc PointsUnder before after
      ↔ (lineBefore before).length = byteSize (lineBefore before) := by
        rw [PointsUnder, hasCaret_iff, Nat.add_left_cancel_iff]
    _ ↔ ∀ c ∈ lineBefore before, c.val ≤ 127 := eq_comm.trans byteSize_eq_length_iff

-- A character of two bytes before the place moves the caret on by two.
theorem not_forall_pointsUnder : ¬∀ before after : List Char, PointsUnder before after := by
  intro hall
  have hsize : (lineBefore ['é']).length = byteSize (lineBefore ['é']) :=
    Nat.add_left_cancel (hasCaret_iff.mp (hall ['é'] ['!']))
  exact absurd hsize (by decide)

end Location

end Descent
