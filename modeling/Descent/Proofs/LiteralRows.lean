import Descent.Proofs.Lexemes
import Descent.Proofs.Yields
import Mathlib.Algebra.Ring.Nat

namespace Descent

open Text

-- Literals as they are written one after the other, each with a gap in front of it.
def spaced (row : List (List Char × String)) : List Char :=
  row.flatMap fun entry => entry.1 ++ entry.2.toList

-- The row of these literals without gaps.
def unspaced (literals : List String) : List (List Char × String) :=
  literals.map fun literal => ([], literal)

theorem spaced_cons (gap : List Char) (literal : String) (row : List (List Char × String)) :
    spaced ((gap, literal) :: row) = gap ++ literal.toList ++ spaced row := rfl

theorem byteSize_spaced_unspaced (literals : List String) :
    byteSize (spaced (unspaced literals)) = (literals.map String.utf8ByteSize).sum := by
  induction literals with
  | nil => rfl
  | cons literal literals ih =>
      have hsize : byteSize literal.toList = literal.utf8ByteSize := by
        rw [byteSize_eq_utf8ByteSize, String.ofList_toList]
      have hcons : spaced (unspaced (literal :: literals)) =
          literal.toList ++ spaced (unspaced literals) := rfl
      rw [hcons, byteSize_append, ih, hsize, List.map_cons, List.sum_cons]

namespace Cursor

-- What stands in front of a literal is passed over: there is nothing, or it is skipped and the
-- literal is not.
def Passes (cursor : Cursor) (gap : List Char) (literal : String) : Prop :=
  gap = [] ∨ (∀ c ∈ gap, cursor.skips c) ∧ ∀ c ∈ literal.toList.head?, cursor.skips c = false

variable {cursor : Cursor} {gap rest : List Char}

theorem rewind_after_nil (hrest : cursor.rest = rest) :
    cursor.rewind (cursor.toPlace.after [] rest) = cursor := by
  rw [← hrest]
  rfl

theorem skipBlank_of_gap (hgap : ∀ c ∈ gap, cursor.skips c)
    (hhead : ∀ c ∈ rest.head?, cursor.skips c = false) (hrest : cursor.rest = gap ++ rest) :
    cursor.skipBlank = cursor.rewind (cursor.toPlace.after gap rest) := by
  rw [skipBlank, skipWhile, hrest, Scanner.takeWhile_append_of_head hgap hhead,
    Scanner.dropWhile_append_of_head hgap hhead]

end Cursor

namespace Grammar

variable {α : Type} {cursor : Cursor} {gap rest : List Char} {literal : String}

section Literal

variable (hne : literal ≠ "") (hgap : cursor.Passes gap literal)
  (hrest : cursor.rest = gap ++ (literal.toList ++ rest))

include hne hgap hrest

-- A literal is looked for behind the gap. If it starts with a blank itself, nothing is skipped, but
-- then there is no gap either.
theorem scanStart_exact_of_passes : scanStart (.exact literal) cursor =
    cursor.rewind (cursor.toPlace.after gap (literal.toList ++ rest)) := by
  obtain ⟨c, more, hliteral⟩ : ∃ c more, literal.toList = c :: more := by
    refine List.exists_cons_of_ne_nil fun hnil => hne ?_
    rw [← String.ofList_toList (s := literal), hnil]
  have hkeeps : (Scanner.exact literal).keepsBlank cursor.skips = cursor.skips c := by
    simp [Scanner.keepsBlank, hliteral]
  rw [scanStart, hkeeps]
  by_cases hskips : cursor.skips c = true
  · have hnil : gap = [] := by
      refine hgap.resolve_right fun h => ?_
      simp [hliteral, hskips] at h
    have hrest : cursor.rest = literal.toList ++ rest := by rw [hrest, hnil, List.nil_append]
    rw [if_pos hskips, hnil, Cursor.rewind_after_nil hrest]
  · have hblanks : ∀ c ∈ gap, cursor.skips c := by
      rcases hgap with hnil | h
      · simp [hnil]
      · exact h.1
    have hhead : ∀ d ∈ (literal.toList ++ rest).head?, cursor.skips d = false := by
      simpa [hliteral] using hskips
    rw [if_neg hskips, Cursor.skipBlank_of_gap hblanks hhead hrest]

theorem yields_exact_of_passes (rules : Rules α) :
    Yields rules (.exact literal) cursor (.ok (.token literal))
      (cursor.rewind (cursor.toPlace.after (gap ++ literal.toList) rest)) := by
  have hstart := scanStart_exact_of_passes hne hgap hrest
  have hyields : Yields rules (.exact literal) cursor _ _ :=
    yields_scan_of_lex hstart (Scanner.lex_exact_append literal rest)
  have hstop : cursor.pos + byteSize gap + byteSize literal.toList =
      cursor.pos + byteSize (gap ++ literal.toList) := by rw [byteSize_append, Nat.add_assoc]
  simp only [Lexeme.token, String.ofList_toList, Cursor.rewind, Place.after, hstop] at hyields
  exact hyields

end Literal

-- Literals with gaps that are passed over are matched one after the other. The induction is on the
-- row: behind a literal the same characters are skipped as before it.
theorem follow_literals (rules : Rules α) {row : List (List Char × String)}
    (hne : ∀ entry ∈ row, entry.2 ≠ "") (hgaps : ∀ entry ∈ row, cursor.Passes entry.1 entry.2)
    (hrest : cursor.rest = spaced row ++ rest) :
    Follow rules (row.map fun entry => .exact entry.2) cursor
      (.ok (row.map fun entry => .token entry.2))
      (cursor.rewind (cursor.toPlace.after (spaced row) rest)) := by
  induction row generalizing cursor with
  | nil =>
      have hstop : cursor.rewind (cursor.toPlace.after (spaced []) rest) = cursor :=
        Cursor.rewind_after_nil hrest
      rw [hstop]
      exact .nil
  | cons entry row ih =>
      obtain ⟨gap, literal⟩ := entry
      obtain ⟨hneFirst, hneOthers⟩ := List.forall_mem_cons.mp hne
      obtain ⟨hgap, hgaps⟩ := List.forall_mem_cons.mp hgaps
      let behind := cursor.rewind (cursor.toPlace.after (gap ++ literal.toList) (spaced row ++ rest))
      have hfirst : Yields rules (.exact literal) cursor (.ok (.token literal)) behind := by
        refine yields_exact_of_passes hneFirst hgap ?_ rules
        rw [hrest, spaced_cons, List.append_assoc, List.append_assoc]
      have hothers : Follow rules _ behind _ _ := ih hneOthers hgaps rfl
      have hstop : cursor.rewind (cursor.toPlace.after (spaced ((gap, literal) :: row)) rest) =
          behind.rewind (behind.toPlace.after (spaced row) rest) := by
        simp only [behind, Cursor.rewind, Place.after, spaced_cons, byteSize_append, Nat.add_assoc]
      rw [hstop]
      exact .cons hfirst hothers

theorem yields_literals (rules : Rules α) {literals : List String}
    {row : List (List Char × String)} (hrow : row.map Prod.snd = literals)
    (hne : ∀ literal ∈ literals, literal ≠ "")
    (hgaps : ∀ entry ∈ row, cursor.Passes entry.1 entry.2) (hrest : cursor.rest = spaced row ++ rest)
    (hpos : cursor.pos = 0) :
    Yields rules (.seq (literals.map .exact)) cursor (.ok (.children (literals.map .token)))
      (cursor.rewind ⟨byteSize (spaced row), rest⟩) := by
  have hneRow : ∀ entry ∈ row, entry.2 ≠ "" := by
    intro entry hmem
    exact hne entry.2 (hrow ▸ List.mem_map_of_mem hmem)
  have hyields := (follow_literals rules hneRow hgaps hrest).yields_seq
  have hstop : cursor.toPlace.after (spaced row) rest = ⟨byteSize (spaced row), rest⟩ := by
    rw [Place.after, hpos, Nat.zero_add]
  rw [hstop] at hyields
  rw [← hrow, List.map_map, List.map_map]
  exact hyields

-- Literals that stand one after the other are read back, whatever is skipped and even where they
-- start with blanks or consist of them. In front of those that do not start with a character that is
-- skipped there may be gaps of such characters too, as long as skipping is on.
theorem literals_are_read_back (rules : Rules α) {literals : List String}
    (hne : ∀ literal ∈ literals, literal ≠ "") (policy : Whitespace) (rest : List Char) :
    (∀ on,
      let start := (Cursor.ofInput (literals.flatMap String.toList ++ rest) policy).withAutoSkip on
      Yields rules (.seq (literals.map .exact)) start (.ok (.children (literals.map .token)))
        (start.rewind ⟨(literals.map String.utf8ByteSize).sum, rest⟩)) ∧
    ∀ row : List (List Char × String), row.map Prod.snd = literals →
      (∀ entry ∈ row, entry.1 ≠ [] →
        (∀ c ∈ entry.1, policy.accepts c) ∧
          ∀ c ∈ entry.2.toList.head?, policy.accepts c = false) →
      let start := Cursor.ofInput (spaced row ++ rest) policy
      Yields rules (.seq (literals.map .exact)) start (.ok (.children (literals.map .token)))
        (start.rewind ⟨byteSize (spaced row), rest⟩) := by
  constructor
  · intro on start
    have hrow : (unspaced literals).map Prod.snd = literals := by
      rw [unspaced, List.map_map]
      exact List.map_id literals
    have htext : start.rest = spaced (unspaced literals) ++ rest := by
      simp [start, Cursor.ofInput, Cursor.withAutoSkip, spaced, unspaced, List.flatMap_map]
    have hgaps : ∀ entry ∈ unspaced literals, start.Passes entry.1 entry.2 := by
      intro entry hmem
      obtain ⟨literal, -, rfl⟩ := List.mem_map.mp hmem
      exact .inl rfl
    have hyields := yields_literals rules hrow hne hgaps htext rfl
    rwa [byteSize_spaced_unspaced] at hyields
  · intro row hrow hblanks start
    have hskips : start.skips = policy.accepts := by
      funext c
      exact Bool.true_and _
    have hgaps : ∀ entry ∈ row, start.Passes entry.1 entry.2 := by
      intro entry hmem
      rw [Cursor.Passes, hskips]
      by_cases hnil : entry.1 = []
      · exact .inl hnil
      · exact .inr (hblanks entry hmem hnil)
    exact yields_literals rules hrow hne hgaps rfl rfl

-- The second literal starts with the blank that the first one ends with, the third is nothing but a
-- blank, and a blank is left behind it. In the second text there is a gap in front of the last one.
theorem literals_with_blanks_are_read_back :
    let literals := ["a ", " b", "\n", "é"]
    let nodes : List (Node Unit) := literals.map .token
    let start := Cursor.ofInput "a  b\né c".toList .ascii
    let apart := Cursor.ofInput "a  b\n\t é c".toList .ascii
    (∀ literal ∈ literals, literal ≠ "") ∧
    Yields {} (.seq (literals.map .exact)) start (.ok (.children nodes))
      (start.rewind ⟨7, " c".toList⟩) ∧
    Yields {} (.seq (literals.map .exact)) apart (.ok (.children nodes))
      (apart.rewind ⟨9, " c".toList⟩) := by
  intro literals nodes start apart
  have hne : ∀ literal ∈ literals, literal ≠ "" := by decide
  obtain ⟨hclose, hspaced⟩ :=
    literals_are_read_back ({} : Rules Unit) hne .ascii " c".toList
  let row : List (List Char × String) :=
    [([], "a "), ([], " b"), ([], "\n"), (['\t', ' '], "é")]
  have hgaps : ∀ entry ∈ row, entry.1 ≠ [] → (∀ c ∈ entry.1, Whitespace.ascii.accepts c) ∧
      ∀ c ∈ entry.2.toList.head?, Whitespace.ascii.accepts c = false := by
    simp [row, Whitespace.accepts, isAsciiBlank]
  exact ⟨hne, hclose true, hspaced row rfl hgaps⟩

end Grammar

end Descent
