import Descent.Location
import Mathlib.Algebra.Ring.Nat

namespace Descent

open Text

-- The line with a number. Lines are counted from one.
def lineAt (lines : List (List Char)) (number : Nat) : List Char :=
  lines.getD (number - 1) []

-- The bytes of the lines above a line, each with its line break.
def bytesAbove (lines : List (List Char)) (number : Nat) : Nat :=
  ((lines.take (number - 1)).map (byteSize · + 1)).sum

namespace LinePosition

-- One position comes before another, by line first and within a line by byte.
def Before (position other : LinePosition) : Prop :=
  position.line < other.line ∨
    position.line = other.line ∧ position.byteOffset < other.byteOffset

-- The line exists, is long enough, and the bytes above it with those within it are the offset.
structure Locates (lines : List (List Char)) (position : LinePosition) (offset : Nat) : Prop where
  one_le : 1 ≤ position.line
  le_length : position.line ≤ lines.length
  within : position.byteOffset ≤ byteSize (lineAt lines position.line)
  offset_eq : bytesAbove lines position.line + position.byteOffset = offset

end LinePosition

namespace Text

theorem exists_lines_eq (text : List Char) : ∃ line others, lines text = line :: others := by
  apply List.exists_cons_of_length_pos
  rw [length_lines]
  omega

theorem lines_break (rest : List Char) : lines ('\n' :: rest) = [] :: lines rest := by
  simp [lines]

theorem lines_cons_of_ne {c : Char} {rest line : List Char} {others : List (List Char)}
    (hc : c ≠ '\n') (h : lines rest = line :: others) :
    lines (c :: rest) = (c :: line) :: others := by
  simp [lines, hc, h]

-- The lines are the pieces that the text falls into at its line breaks.
theorem lines_eq_splitOn (text : List Char) : lines text = text.splitOn '\n' := by
  induction text with
  | nil => rfl
  | cons c rest ih =>
      rw [List.splitOn_cons_eq_if_modifyHead, ← ih]
      by_cases hc : c = '\n'
      · rw [hc, lines_break]
        simp
      · obtain ⟨line, others, h⟩ := exists_lines_eq rest
        rw [lines_cons_of_ne hc h, h]
        simp [hc]

end Text

variable {pieces : List (List Char)}

@[simp] theorem bytesAbove_one (pieces : List (List Char)) : bytesAbove pieces 1 = 0 := by
  simp [bytesAbove]

@[simp] theorem lineAt_cons_one (line : List Char) (others : List (List Char)) :
    lineAt (line :: others) 1 = line := by
  simp [lineAt]

theorem lineAt_cons_succ (line : List Char) (others : List (List Char)) {number : Nat}
    (h : 1 ≤ number) : lineAt (line :: others) (number + 1) = lineAt others number := by
  obtain ⟨index, rfl⟩ := Nat.exists_eq_add_of_le' h
  simp [lineAt]

theorem bytesAbove_cons_succ (line : List Char) (others : List (List Char)) {number : Nat}
    (h : 1 ≤ number) :
    bytesAbove (line :: others) (number + 1) = byteSize line + 1 + bytesAbove others number := by
  obtain ⟨index, rfl⟩ := Nat.exists_eq_add_of_le' h
  simp [bytesAbove]

theorem bytesAbove_succ {number : Nat} (hpos : 1 ≤ number) (h : number ≤ pieces.length) :
    bytesAbove pieces (number + 1) =
      bytesAbove pieces number + byteSize (lineAt pieces number) + 1 := by
  obtain ⟨index, rfl⟩ := Nat.exists_eq_add_of_le' hpos
  have hindex : index < pieces.length := h
  simp only [bytesAbove, lineAt, Nat.add_sub_cancel]
  rw [List.take_succ_eq_append_getElem hindex, List.map_append, List.sum_append]
  simp [hindex, Nat.add_assoc]

theorem bytesAbove_mono {number other : Nat} (h : number ≤ other) :
    bytesAbove pieces number ≤ bytesAbove pieces other := by
  obtain ⟨more, hmore⟩ := Nat.exists_eq_add_of_le (Nat.sub_le_sub_right h 1)
  unfold bytesAbove
  rw [hmore, List.take_add, List.map_append, List.sum_append]
  apply Nat.le_add_right

namespace LinePosition

variable {position other : LinePosition} {offset otherOffset : Nat}

-- All of an earlier line, its line break included, lies above a later one.
theorem Locates.lt_of_before (h : position.Locates pieces offset)
    (hother : other.Locates pieces otherOffset) (hbefore : position.Before other) :
    offset < otherOffset := by
  obtain ⟨hpos, hle, hwithin, hoffset⟩ := h
  have hotherOffset := hother.offset_eq
  cases hbefore with
  | inl hline =>
      have hstep := bytesAbove_succ hpos hle
      have hmono : bytesAbove pieces (position.line + 1) ≤ bytesAbove pieces other.line :=
        bytesAbove_mono hline
      omega
  | inr hbyte =>
      rw [hbyte.1] at hoffset
      omega

theorem before_trichotomy (position other : LinePosition) :
    position.Before other ∨ position = other ∨ other.Before position := by
  obtain ⟨line, byteOffset⟩ := position
  obtain ⟨otherLine, otherByteOffset⟩ := other
  simp only [Before, mk.injEq]
  omega

theorem Locates.before_iff (h : position.Locates pieces offset)
    (hother : other.Locates pieces otherOffset) :
    position.Before other ↔ offset < otherOffset := by
  refine ⟨h.lt_of_before hother, fun hlt => ?_⟩
  obtain hbefore | heq | hafter := before_trichotomy position other
  · exact hbefore
  · subst heq
    have := h.offset_eq
    have := hother.offset_eq
    omega
  · have := hother.lt_of_before h hafter
    omega

theorem locates_first {line : List Char} {others : List (List Char)} {byteOffset : Nat}
    (h : byteOffset ≤ byteSize line) :
    Locates (line :: others) ⟨1, byteOffset⟩ byteOffset :=
  ⟨Nat.le_refl 1, by simp, by simpa using h, by simp⟩

theorem Locates.below {number byteOffset : Nat} (h : Locates pieces ⟨number, byteOffset⟩ offset)
    (line : List Char) :
    Locates (line :: pieces) ⟨number + 1, byteOffset⟩ (byteSize line + 1 + offset) := by
  have hpos : 1 ≤ number := h.one_le
  have hoffset : bytesAbove pieces number + byteOffset = offset := h.offset_eq
  refine ⟨by simp, Nat.succ_le_succ h.le_length, ?_, ?_⟩
  · simpa only [lineAt_cons_succ line pieces hpos] using h.within
  · simp only [bytesAbove_cons_succ line pieces hpos]
    omega

-- How a walk over the lines of a text moves on from a position. It stays on the line it starts on
-- or passes its line break and starts over at the line below.
inductive Reaches : LinePosition → List (List Char) → Nat → LinePosition → Prop
  | stays (start : LinePosition) (line : List Char) (others : List (List Char)) (n : Nat)
      (h : n ≤ byteSize line) :
      Reaches start (line :: others) n ⟨start.line, start.byteOffset + n⟩
  | passes (start : LinePosition) (line : List Char) {others : List (List Char)} {n : Nat}
      {position : LinePosition} (h : Reaches ⟨start.line + 1, 0⟩ others n position) :
      Reaches start (line :: others) (byteSize line + 1 + n) position

theorem Reaches.cons_char {number byteOffset n : Nat} {line : List Char}
    {others : List (List Char)} (c : Char)
    (h : Reaches ⟨number, byteOffset + c.utf8Size⟩ (line :: others) n position) :
    Reaches ⟨number, byteOffset⟩ ((c :: line) :: others) (c.utf8Size + n) position := by
  cases h with
  | stays _ _ _ _ hn =>
      have hsize : c.utf8Size + n ≤ byteSize (c :: line) := by simpa using hn
      have hreach := stays ⟨number, byteOffset⟩ (c :: line) others (c.utf8Size + n) hsize
      rwa [← Nat.add_assoc] at hreach
  | @passes _ _ _ m _ hbelow =>
      have hreach := passes ⟨number, byteOffset⟩ (c :: line) hbelow
      rwa [byteSize_cons, Nat.add_assoc, Nat.add_assoc, ← Nat.add_assoc (byteSize line)] at hreach

-- A walk stays within the character it cannot pass.
theorem reaches_of_lt {c : Char} {n : Nat} (start : LinePosition) (text : List Char)
    (h : n < c.utf8Size) :
    Reaches start (lines (c :: text)) n ⟨start.line, start.byteOffset + n⟩ := by
  by_cases hc : c = '\n'
  · subst hc
    have hn : n = 0 := Nat.lt_one_iff.mp h
    rw [lines_break]
    exact Reaches.stays start [] (lines text) n (by simp [hn])
  · obtain ⟨line, others, hlines⟩ := exists_lines_eq text
    rw [lines_cons_of_ne hc hlines]
    apply Reaches.stays
    rw [byteSize_cons]
    omega

theorem reaches_advance (text : List Char) (start : LinePosition) (n : Nat)
    (hn : n ≤ byteSize text) :
    Reaches start (lines text) n (Location.advance start text n) := by
  induction text generalizing start n with
  | nil => exact Reaches.stays start [] [] n hn
  | cons c rest ih =>
      rw [byteSize_cons] at hn
      unfold Location.advance
      by_cases hsize : c.utf8Size ≤ n
      · obtain ⟨m, rfl⟩ := Nat.exists_eq_add_of_le hsize
        by_cases hc : c = '\n'
        · have hbelow := Reaches.passes start [] (ih ⟨start.line + 1, 0⟩ m (by omega))
          simpa [hc, lines_break, Char.utf8Size] using hbelow
        · obtain ⟨line, others, hlines⟩ := exists_lines_eq rest
          have hrest := ih ⟨start.line, start.byteOffset + c.utf8Size⟩ m (by omega)
          rw [hlines] at hrest
          simpa [hc, lines_cons_of_ne hc hlines] using hrest.cons_char
      · simpa [hsize] using reaches_of_lt start rest (Nat.lt_of_not_le hsize)

theorem Reaches.locates {start : LinePosition} (h : Reaches start pieces offset position)
    (hstart : start.byteOffset = 0) :
    ∃ number, position.line + 1 = start.line + number ∧
      Locates pieces ⟨number, position.byteOffset⟩ offset := by
  induction h with
  | stays start line others n hn =>
      refine ⟨1, rfl, ?_⟩
      simp only [hstart, Nat.zero_add]
      exact locates_first hn
  | passes start line _ ih =>
      obtain ⟨number, hnumber, hlocates⟩ := ih rfl
      refine ⟨number + 1, ?_, hlocates.below line⟩
      simp only at hnumber
      omega

end LinePosition

namespace Location

open LinePosition

theorem locates_linePosition (text : List Char) (offset : Nat) :
    (ofOffset text offset).linePosition.Locates (lines text) (min offset (byteSize text)) := by
  have hreach := reaches_advance text ⟨1, 0⟩ (min offset (byteSize text)) (Nat.min_le_right _ _)
  obtain ⟨number, hnumber, hlocates⟩ := hreach.locates rfl
  have hline : number = (advance ⟨1, 0⟩ text (min offset (byteSize text))).line := by
    simp only at hnumber
    omega
  rwa [hline] at hlocates

-- A line with its number, as it is shown above and below the line of a location.
def plainLine (number : Nat) (content : List Char) : String :=
  s!"    {number} | " ++ String.ofList content

-- The line of a location with its number.
def markedLine (number : Nat) (content : List Char) : String :=
  s!"  > {number} | " ++ String.ofList content

-- A line with nothing but blanks before the pointer.
def IsPointer (line : String) : Prop :=
  ∃ blanks, line = String.ofList (List.replicate blanks ' ') ++ "^--- here"

-- The first character of a line that is not a blank tells a pointer from a line of the text.
def firstInk (line : String) : Option Char := line.toList.find? (· != ' ')

theorem firstInk_append (line rest : String) :
    firstInk (line ++ rest) = (firstInk line).or (firstInk rest) := by
  simp [firstInk]

theorem IsPointer.firstInk {line : String} (h : IsPointer line) : firstInk line = some '^' := by
  obtain ⟨blanks, rfl⟩ := h
  have hblanks : Location.firstInk (String.ofList (List.replicate blanks ' ')) = none := by
    simp [Location.firstInk]
  rw [firstInk_append, hblanks]
  rfl

theorem firstInk_toString (number : Nat) :
    ∃ digit, digit.isDigit ∧ firstInk (toString number) = some digit := by
  obtain ⟨digit, digits, hdigits⟩ := List.exists_cons_of_ne_nil
    (Nat.toDigits_ne_nil : Nat.toDigits 10 number ≠ [])
  have hdigit : digit.isDigit :=
    Nat.isDigit_of_mem_toDigits (by decide) (by decide) (hdigits ▸ List.mem_cons_self)
  have hne : digit ≠ ' ' := by
    intro h
    subst h
    simp at hdigit
  refine ⟨digit, hdigit, ?_⟩
  simp [firstInk, hdigits, hne]

theorem not_isPointer_markedLine (number : Nat) (content : List Char) :
    ¬ IsPointer (markedLine number content) := by
  intro h
  have hmargin : firstInk (toString "  > ") = some '>' := rfl
  have hink : firstInk (markedLine number content) = some '>' := by
    simp only [markedLine, firstInk_append, hmargin, Option.some_or]
  have := hink.symm.trans h.firstInk
  simp at this

theorem not_isPointer_plainLine (number : Nat) (content : List Char) :
    ¬ IsPointer (plainLine number content) := by
  intro h
  obtain ⟨digit, hdigit, htoString⟩ := firstInk_toString number
  have hmargin : firstInk (toString "    ") = none := rfl
  have hink : firstInk (plainLine number content) = some digit := by
    simp only [plainLine, firstInk_append, hmargin, htoString, Option.none_or, Option.some_or]
  obtain rfl : digit = '^' := Option.some_inj.mp (hink.symm.trans h.firstInk)
  simp at hdigit

theorem shownLine_of_ne {position : LinePosition} {number : Nat} (content : List Char)
    (h : number ≠ position.line) : shownLine position number content = [plainLine number content] :=
  if_neg h

-- What stands before the text of the line of a location.
def margin (number : Nat) : String := s!"  > {number} | "

-- The pointer to a position is set in by bytes: those of the margin and those of the line before
-- the position.
def pointerLine (position : LinePosition) : String :=
  String.ofList (List.replicate ((margin position.line).utf8ByteSize + position.byteOffset) ' ') ++
    "^--- here"

theorem isPointer_pointerLine (position : LinePosition) : IsPointer (pointerLine position) :=
  ⟨_, rfl⟩

theorem shownLine_self (position : LinePosition) (content : List Char) :
    shownLine position position.line content =
      [markedLine position.line content, pointerLine position] :=
  if_pos rfl

theorem zipIdx_eq_map_lineAt (pieces : List (List Char)) :
    pieces.zipIdx 1 =
      (List.range' 1 pieces.length).map fun number => (lineAt pieces number, number) := by
  apply List.ext_getElem
  · simp
  · intro i hi _
    have hi : i < pieces.length := by simpa using hi
    simp [lineAt, Nat.add_comm 1 i, hi]

theorem range'_split {start stop middle : Nat} (hmiddle : start ≤ middle) (hstop : middle ≤ stop) :
    List.range' start (stop - start) =
      List.range' start (middle - start) ++ List.range' middle (stop - middle) := by
  have hlength : stop - start = middle - start + (stop - middle) := by omega
  rw [hlength, ← List.range'_append_1]
  congr 2
  omega

-- Of the numbers up to a length, those within bounds are in a row.
theorem filter_range'_bounds {first last length : Nat} (hpos : 1 ≤ first) (h : first ≤ last)
    (top : Nat) (hlast : last = min length top) :
    (List.range' 1 length).filter (fun n => first ≤ n && n ≤ top) =
      List.range' first (last + 1 - first) := by
  have hsplit : List.range' 1 length =
      List.range' 1 (first - 1) ++ (List.range' first (last + 1 - first) ++
        List.range' (last + 1) (length + 1 - (last + 1))) := by
    rw [← range'_split (by omega : first ≤ last + 1) (by omega), ← range'_split hpos (by omega)]
    simp
  have hbefore : (List.range' 1 (first - 1)).filter (fun n => first ≤ n && n ≤ top) = [] := by
    apply List.filter_eq_nil_iff.mpr
    simp only [List.mem_range'_1, Bool.and_eq_true, decide_eq_true_eq]
    omega
  have hwithin : (List.range' first (last + 1 - first)).filter (fun n => first ≤ n && n ≤ top) =
      List.range' first (last + 1 - first) := by
    apply List.filter_eq_self.mpr
    simp only [List.mem_range'_1, Bool.and_eq_true, decide_eq_true_eq]
    omega
  have hafter : (List.range' (last + 1) (length + 1 - (last + 1))).filter
      (fun n => first ≤ n && n ≤ top) = [] := by
    apply List.filter_eq_nil_iff.mpr
    simp only [List.mem_range'_1, Bool.and_eq_true, decide_eq_true_eq]
    omega
  rw [hsplit, List.filter_append, List.filter_append, hbefore, hwithin, hafter]
  simp

theorem flatMap_shownLine_of_notMem {position : LinePosition} {numbers : List Nat}
    (pieces : List (List Char)) (h : position.line ∉ numbers) :
    numbers.flatMap (fun number => shownLine position number (lineAt pieces number)) =
      numbers.map fun number => plainLine number (lineAt pieces number) := by
  induction numbers with
  | nil => rfl
  | cons number rest ih =>
      rw [List.mem_cons, not_or] at h
      rw [List.flatMap_cons, List.map_cons, shownLine_of_ne _ (Ne.symm h.1), ih h.2]
      rfl

-- The lines from a number on up to another, that of the first line left out.
def plainLines (pieces : List (List Char)) (first stop : Nat) : List String :=
  (List.range' first (stop - first)).map fun number => plainLine number (lineAt pieces number)

@[simp] theorem length_plainLines (pieces : List (List Char)) (first stop : Nat) :
    (plainLines pieces first stop).length = stop - first := by
  simp [plainLines]

theorem context_eq_flatMap (location : Location) {pieces : List (List Char)} {first last : Nat}
    (hpieces : lines location.text = pieces)
    (hfirst : first = max 1 (location.linePosition.line - 2))
    (hlast : last = min pieces.length (location.linePosition.line + 2)) (h : first ≤ last) :
    location.context = (List.range' first (last + 1 - first)).flatMap fun number =>
      shownLine location.linePosition number (lineAt pieces number) := by
  have hmax : max (location.linePosition.line - 2) 1 = first := by
    rw [hfirst, Nat.max_comm]
  have hwindow := filter_range'_bounds (by omega : 1 ≤ first) h _ hlast
  unfold context
  simp only [hmax, hpieces]
  rw [zipIdx_eq_map_lineAt, List.filter_map, List.flatMap_map, ← hwindow]
  rfl

-- The context of a place on a line of the text. The pointer stands directly below that line.
theorem context_eq (location : Location) {pieces : List (List Char)} {first last : Nat}
    (hpieces : lines location.text = pieces) {offset : Nat}
    (hlocates : location.linePosition.Locates pieces offset)
    (hfirst : first = max 1 (location.linePosition.line - 2))
    (hlast : last = min pieces.length (location.linePosition.line + 2)) :
    location.context = plainLines pieces first location.linePosition.line ++
      markedLine location.linePosition.line (lineAt pieces location.linePosition.line) ::
        pointerLine location.linePosition ::
          plainLines pieces (location.linePosition.line + 1) (last + 1) := by
  have hpos := hlocates.one_le
  have hle := hlocates.le_length
  rw [context_eq_flatMap location hpieces hfirst hlast (by omega)]
  generalize location.linePosition = position at *
  have hlength : last + 1 - position.line = last + 1 - (position.line + 1) + 1 := by omega
  have habove : position.line ∉ List.range' first (position.line - first) := by
    rw [List.mem_range'_1]
    omega
  have hbelow :
      position.line ∉ List.range' (position.line + 1) (last + 1 - (position.line + 1)) := by
    rw [List.mem_range'_1]
    omega
  rw [range'_split (by omega : first ≤ position.line) (by omega), hlength, List.range'_succ,
    List.flatMap_append, List.flatMap_cons, shownLine_self,
    flatMap_shownLine_of_notMem pieces habove, flatMap_shownLine_of_notMem pieces hbelow]
  rfl

theorem exists_context_eq (location : Location) {pieces : List (List Char)} {first last : Nat}
    (hpieces : lines location.text = pieces) {offset : Nat}
    (hlocates : location.linePosition.Locates pieces offset)
    (hfirst : first = max 1 (location.linePosition.line - 2))
    (hlast : last = min pieces.length (location.linePosition.line + 2)) :
    ∃ pointer, IsPointer pointer ∧ location.context =
      plainLines pieces first location.linePosition.line ++
        markedLine location.linePosition.line (lineAt pieces location.linePosition.line) ::
          pointer :: plainLines pieces (location.linePosition.line + 1) (last + 1) :=
  ⟨_, isPointer_pointerLine _, context_eq location hpieces hlocates hfirst hlast⟩

theorem not_isPointer_of_mem_plainLines {pieces : List (List Char)} {first stop : Nat}
    {line : String} (h : line ∈ plainLines pieces first stop) : ¬ IsPointer line := by
  obtain ⟨number, _, rfl⟩ := List.mem_map.mp h
  exact not_isPointer_plainLine number _

-- Among the lines of a context only the one below the marked line is a pointer.
theorem isPointer_getElem?_iff {above below : List String} {marked pointer : String}
    (habove : ∀ line ∈ above, ¬ IsPointer line) (hmarked : ¬ IsPointer marked)
    (hpointer : IsPointer pointer) (hbelow : ∀ line ∈ below, ¬ IsPointer line)
    {index : Nat} {line : String}
    (h : (above ++ marked :: pointer :: below)[index]? = some line) :
    IsPointer line ↔ index = above.length + 1 := by
  by_cases hindex : index < above.length
  · rw [List.getElem?_append_left hindex] at h
    have hnot := habove line (List.mem_of_getElem? h)
    simp only [hnot, false_iff]
    omega
  · obtain ⟨rest, rfl⟩ := Nat.exists_eq_add_of_le (Nat.le_of_not_lt hindex)
    rw [List.getElem?_append_right (Nat.le_add_right _ _), Nat.add_sub_cancel_left] at h
    cases rest with
    | zero =>
        obtain rfl : marked = line := by simpa using h
        simpa using hmarked
    | succ rest =>
        cases rest with
        | zero =>
            obtain rfl : pointer = line := by simpa using h
            simpa using hpointer
        | succ rest =>
            have hnot := hbelow line (List.mem_of_getElem? (by simpa using h))
            simp only [hnot, false_iff]
            omega

-- The line and the byte within it tell a place of a text apart from every other, and in the order
-- of the text. The context shows the lines around it, each with its number, and one pointer.
theorem linePosition_locates_and_context_points (text : List Char) (offset : Nat) :
    let location := ofOffset text offset
    let position := location.linePosition
    let pieces := text.splitOn '\n'
    let first := max 1 (position.line - 2)
    let last := min pieces.length (position.line + 2)
    position.Locates pieces location.offset ∧
      (∀ otherOffset, let other := ofOffset text otherOffset
        (other.linePosition = position → other.offset = location.offset) ∧
          (position.Before other.linePosition ↔ location.offset < other.offset)) ∧
      (∃ pointer, IsPointer pointer ∧ location.context =
        plainLines pieces first position.line ++
          markedLine position.line (lineAt pieces position.line) :: pointer ::
            plainLines pieces (position.line + 1) (last + 1)) ∧
      ∀ index line, location.context[index]? = some line →
        (IsPointer line ↔ index = position.line - first + 1) := by
  intro location position pieces first last
  have hlocates (offset : Nat) : (ofOffset text offset).linePosition.Locates pieces
      (ofOffset text offset).offset := by
    have h := locates_linePosition text offset
    rwa [lines_eq_splitOn] at h
  obtain ⟨pointer, hpointer, hcontext⟩ := exists_context_eq location (lines_eq_splitOn text)
    (hlocates offset) rfl rfl
  refine ⟨hlocates offset, fun otherOffset => ⟨fun heq => ?_, ?_⟩,
    ⟨pointer, hpointer, hcontext⟩, fun index line hline => ?_⟩
  · have hother := (hlocates otherOffset).offset_eq
    rw [heq] at hother
    exact hother.symm.trans (hlocates offset).offset_eq
  · exact (hlocates offset).before_iff (hlocates otherOffset)
  · rw [hcontext] at hline
    rw [isPointer_getElem?_iff (fun _ => not_isPointer_of_mem_plainLines)
      (not_isPointer_markedLine _ _) hpointer (fun _ => not_isPointer_of_mem_plainLines) hline,
      length_plainLines]

-- An offset inside a character of two bytes, on the last line.
example : (ofOffset ['a', '\n', 'é'] 3).linePosition = ⟨2, 1⟩ := by decide

end Location

end Descent
