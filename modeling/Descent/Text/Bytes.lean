namespace Descent.Text

-- The length of a text in UTF-8 bytes, the unit of every offset in this library.
def byteSize : List Char → Nat
  | [] => 0
  | c :: rest => c.utf8Size + byteSize rest

-- What follows the first `n` bytes of a text. A character that the cut would split goes with
-- the part before it.
def dropBytes : List Char → Nat → List Char
  | text, 0 => text
  | [], _ => []
  | c :: rest, n + 1 => dropBytes rest (n + 1 - c.utf8Size)

-- The characters that start within the first `n` bytes of a text.
def takeBytes : List Char → Nat → List Char
  | _, 0 => []
  | [], _ => []
  | c :: rest, n + 1 => c :: takeBytes rest (n + 1 - c.utf8Size)

-- The pieces of a text between its line breaks.
def lines : List Char → List (List Char)
  | [] => [[]]
  | c :: rest =>
    if c = '\n' then [] :: lines rest
    else
      match lines rest with
      | line :: others => (c :: line) :: others
      | [] => [[c]]

@[simp] theorem byteSize_nil : byteSize [] = 0 := rfl

@[simp] theorem byteSize_cons (c : Char) (text : List Char) :
    byteSize (c :: text) = c.utf8Size + byteSize text := rfl

@[simp] theorem byteSize_append (a b : List Char) :
    byteSize (a ++ b) = byteSize a + byteSize b := by
  induction a with
  | nil => simp
  | cons c a ih => simp [ih, Nat.add_assoc]

theorem byteSize_eq_zero_iff {text : List Char} : byteSize text = 0 ↔ text = [] := by
  cases text with
  | nil => simp
  | cons c rest =>
    have := c.utf8Size_pos
    simp only [byteSize_cons, reduceCtorEq, iff_false]
    omega

theorem byteSize_eq_utf8ByteSize (text : List Char) :
    byteSize text = (String.ofList text).utf8ByteSize := by
  induction text with
  | nil => rfl
  | cons c rest ih =>
    have happend : String.ofList (c :: rest) = String.singleton c ++ String.ofList rest := by
      rw [String.singleton_eq_ofList, ← String.ofList_append]
      rfl
    rw [byteSize_cons, ih, happend, String.utf8ByteSize_append, String.utf8ByteSize_singleton]

-- Cutting behind a known beginning gives back what follows it.
theorem dropBytes_append (a b : List Char) : dropBytes (a ++ b) (byteSize a) = b := by
  induction a with
  | nil => cases b <;> rfl
  | cons c a ih =>
    have hpos := c.utf8Size_pos
    obtain ⟨n, hn⟩ : ∃ n, c.utf8Size + byteSize a = n + 1 :=
      ⟨c.utf8Size + byteSize a - 1, by omega⟩
    rw [List.cons_append, byteSize_cons, hn, dropBytes, ← hn, Nat.add_sub_cancel_left, ih]

theorem takeBytes_append (a b : List Char) : takeBytes (a ++ b) (byteSize a) = a := by
  induction a with
  | nil => cases b <;> rfl
  | cons c a ih =>
    have hpos := c.utf8Size_pos
    obtain ⟨n, hn⟩ : ∃ n, c.utf8Size + byteSize a = n + 1 :=
      ⟨c.utf8Size + byteSize a - 1, by omega⟩
    rw [List.cons_append, byteSize_cons, hn, takeBytes, ← hn, Nat.add_sub_cancel_left, ih]

-- There is one more piece than there are line breaks.
theorem length_lines (text : List Char) : (lines text).length = text.count '\n' + 1 := by
  induction text with
  | nil => rfl
  | cons c rest ih =>
    unfold lines
    by_cases h : c = '\n'
    · simp [h, ih]
    · simp only [h, if_false]
      cases hlines : lines rest with
      | nil => simp [hlines] at ih
      | cons line others =>
        rw [hlines] at ih
        rw [List.count_cons_of_ne (by simpa using h)]
        simpa using ih

end Descent.Text
