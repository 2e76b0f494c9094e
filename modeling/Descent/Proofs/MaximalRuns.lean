import Descent.Proofs.Alternatives
import Descent.Proofs.Lexemes
import Descent.Proofs.Tight
import Mathlib.Data.List.SplitBy

namespace Descent

namespace Text

-- The text cut into its maximal runs: every piece is of one kind, all its characters are in the set
-- or none is, and the next piece is of the other kind.
structure IsRuns (inSet : Char → Bool) (text : List Char) (pieces : List (List Char)) : Prop where
  flatten_eq : pieces.flatten = text
  ne_nil : ∀ piece ∈ pieces, piece ≠ []
  uniform : ∀ piece ∈ pieces, (∀ c ∈ piece, inSet c = true) ∨ ∀ c ∈ piece, inSet c = false
  alternate : pieces.IsChain fun piece next => ∀ c ∈ piece, ∀ d ∈ next, inSet c ≠ inSet d

-- Both characters are in the set, or neither is.
def alike (inSet : Char → Bool) (c d : Char) : Bool := inSet c == inSet d

variable {inSet : Char → Bool} {text piece : List Char} {pieces : List (List Char)} {c d : Char}

theorem alike_iff : alike inSet c d ↔ inSet c = inSet d := beq_iff_eq

theorem alike_eq_false_iff : alike inSet c d = false ↔ inSet c ≠ inSet d := beq_eq_false_iff_ne

theorem uniform_iff_forall_alike :
    ((∀ c ∈ piece, inSet c = true) ∨ ∀ c ∈ piece, inSet c = false) ↔
      ∀ c ∈ piece, ∀ d ∈ piece, alike inSet c d := by
  simp only [alike_iff]
  constructor
  · rintro (h | h) c hc d hd
    · rw [h c hc, h d hd]
    · rw [h c hc, h d hd]
  · intro h
    by_cases hin : ∃ c ∈ piece, inSet c = true
    · obtain ⟨c, hc, htrue⟩ := hin
      exact .inl fun d hd => (h d hd c hc).trans htrue
    · exact .inr fun d hd => Bool.eq_false_iff.mpr fun htrue => hin ⟨d, hd, htrue⟩

theorem isChain_alike_iff :
    piece.IsChain (fun c d => alike inSet c d) ↔ ∀ c ∈ piece, ∀ d ∈ piece, alike inSet c d := by
  let Alike (c d : Char) : Prop := alike inSet c d
  have hsymm : Std.Symm Alike := ⟨fun _ _ h => alike_iff.mpr (alike_iff.mp h).symm⟩
  have htrans : Trans Alike Alike Alike :=
    ⟨fun h h' => alike_iff.mpr ((alike_iff.mp h).trans (alike_iff.mp h'))⟩
  change piece.IsChain Alike ↔ ∀ c ∈ piece, ∀ d ∈ piece, Alike c d
  rw [List.isChain_iff_pairwise]
  refine ⟨fun h c hc d hd => ?_, fun h => List.pairwise_of_forall_mem_list h⟩
  exact h.forall_of_forall (fun c _ => alike_iff.mpr rfl) hc hd

-- The runs of a text are what is left of it when it is split wherever the kind changes.
theorem isRuns_iff_splitBy_eq : IsRuns inSet text pieces ↔ text.splitBy (alike inSet) = pieces := by
  rw [List.splitBy_eq_iff]
  constructor
  · rintro ⟨hflatten, hne, huniform, halternate⟩
    refine ⟨hflatten.symm, fun hnil => hne [] hnil rfl, fun piece hmem => ?_, ?_⟩
    · exact isChain_alike_iff.mpr (uniform_iff_forall_alike.mp (huniform piece hmem))
    · refine halternate.imp_of_mem_imp fun piece next hpiece hnext h => ?_
      refine ⟨hne piece hpiece, hne next hnext, alike_eq_false_iff.mpr ?_⟩
      exact h _ (List.getLast_mem _) _ (List.head_mem _)
  · rintro ⟨hflatten, hnil, hchain, halternate⟩
    have halike := fun piece hmem => isChain_alike_iff.mp (hchain piece hmem)
    refine ⟨hflatten.symm, fun piece hmem heq => hnil (heq ▸ hmem), fun piece hmem => ?_, ?_⟩
    · exact uniform_iff_forall_alike.mpr (halike piece hmem)
    · refine halternate.imp_of_mem_imp fun piece next hpiece hnext h c hc d hd => ?_
      obtain ⟨hpieceNe, hnextNe, h⟩ := h
      rw [alike_iff.mp (halike piece hpiece c hc _ (List.getLast_mem hpieceNe)),
        alike_iff.mp (halike next hnext d hd _ (List.head_mem hnextNe))]
      exact alike_eq_false_iff.mp h

theorem existsUnique_isRuns (inSet : Char → Bool) (text : List Char) :
    ∃! pieces, IsRuns inSet text pieces :=
  ⟨_, isRuns_iff_splitBy_eq.mpr rfl, fun _ h => (isRuns_iff_splitBy_eq.mp h).symm⟩

-- The first run goes as far as the characters are of the kind of its first one.
theorem IsRuns.of_cons (h : IsRuns inSet text (piece :: pieces)) :
    ∃ c, text.head? = some c ∧ text.takeWhile (alike inSet c) = piece ∧
      text.dropWhile (alike inSet c) = pieces.flatten ∧ IsRuns inSet pieces.flatten pieces := by
  obtain ⟨rfl, hne, huniform, halternate⟩ := h
  obtain ⟨hpieceNe, hothersNe⟩ := List.forall_mem_cons.mp hne
  obtain ⟨hpiece, hothers⟩ := List.forall_mem_cons.mp huniform
  obtain ⟨hnext, hchain⟩ := List.isChain_cons.mp halternate
  obtain ⟨c, more, rfl⟩ := List.exists_cons_of_ne_nil hpieceNe
  have htaken : ∀ d ∈ c :: more, alike inSet c d :=
    uniform_iff_forall_alike.mp hpiece c List.mem_cons_self
  have hleft : ∀ d ∈ pieces.flatten.head?, alike inSet c d = false := by
    intro d hd
    cases pieces with
    | nil => cases hd
    | cons next others =>
        obtain ⟨first, rest, rfl⟩ := List.exists_cons_of_ne_nil (hothersNe next List.mem_cons_self)
        cases hd
        exact alike_eq_false_iff.mpr (hnext _ rfl c List.mem_cons_self _ List.mem_cons_self)
  rw [List.flatten_cons]
  exact ⟨c, rfl, Scanner.takeWhile_append_of_head htaken hleft,
    Scanner.dropWhile_append_of_head htaken hleft, rfl, hothersNe, hothers, hchain⟩

end Text

namespace Grammar

open Text

variable {α : Type} (rules : Rules α) (matcher : String) {cursor : Cursor}

-- The characters of a set, or those outside of it.
def charsOrNot (matcher : String) : Grammar α := .any [.chars matcher, .notChars matcher]

variable (hskips : cursor.SkipsNothing)

section Scan

variable (negated : Bool)

include hskips

-- Where the first character is of the kind that is asked for, the scanner takes the whole run.
theorem yields_run_of_head {c : Char} (hhead : cursor.rest.head? = some c)
    (hkind : (CharSet.ofString matcher).contains c = !negated) :
    let same := alike (CharSet.ofString matcher).contains c
    Yields rules (.scan (.run matcher negated 1 none)) cursor
      (.ok (.token (String.ofList (cursor.rest.takeWhile same))))
      (cursor.rewind
        (cursor.toPlace.after (cursor.rest.takeWhile same) (cursor.rest.dropWhile same))) := by
  intro same
  have hsame : (fun d => (CharSet.ofString matcher).contains d != negated) = same := by
    funext d
    simp only [same, alike, hkind]
    cases negated <;> cases (CharSet.ofString matcher).contains d <;> rfl
  have hne : ¬(cursor.rest.takeWhile same).length < 1 := by
    obtain ⟨more, hrest⟩ := List.head?_eq_some_iff.mp hhead
    simp [hrest, same, alike]
  have hlex : (Scanner.run matcher negated 1 none).lex (α := α) cursor.policy cursor.rest =
      .ok (.token (cursor.rest.takeWhile same) (cursor.rest.dropWhile same)) := by
    simp only [Scanner.lex, Scanner.prefixOf, hsame, if_neg hne, Scanner.drop_length_takeWhile]
  exact yields_scan_of_lex (scanStart_eq_of_skipsNothing hskips _) hlex

theorem yields_run_error (hkind : ∀ c ∈ cursor.rest.head?,
      (CharSet.ofString matcher).contains c = negated) :
    Yields rules (.scan (.run matcher negated 1 none)) cursor (.error ⟨cursor.pos, matcher⟩)
      cursor := by
  have hnil : (cursor.rest.takeWhile
      fun c => (CharSet.ofString matcher).contains c != negated) = [] := by
    cases hrest : cursor.rest with
    | nil => rfl
    | cons c more => simp [hkind c (by simp [hrest])]
  have hlex : (Scanner.run matcher negated 1 none).lex (α := α) cursor.policy cursor.rest =
      .error ⟨0, matcher⟩ := by
    simp [Scanner.lex, Scanner.prefixOf, hnil]
  exact yields_scan_of_miss (scanStart_eq_of_skipsNothing hskips _) hlex

end Scan

section Loop

variable (hmark : cursor.mark ≤ cursor.pos)

include hskips hmark

-- One of the two scanners matches, whatever stands there.
theorem yields_charsOrNot {c : Char} (hhead : cursor.rest.head? = some c) :
    let same := alike (CharSet.ofString matcher).contains c
    Yields rules (charsOrNot matcher) cursor
      (.ok (.token (String.ofList (cursor.rest.takeWhile same))))
      (cursor.rewind
        (cursor.toPlace.after (cursor.rest.takeWhile same) (cursor.rest.dropWhile same))) := by
  intro same
  refine yields_any_iff.mpr ?_
  cases hkind : (CharSet.ofString matcher).contains c with
  | true => exact .matched (yields_run_of_head rules matcher hskips false hhead hkind)
  | false =>
      have hmisses : ∀ d ∈ cursor.rest.head?, (CharSet.ofString matcher).contains d = false := by
        intro d hd
        cases hhead.symm.trans hd
        exact hkind
      have hchars := yields_run_error rules matcher hskips false hmisses
      exact .next hchars hmark (.matched (yields_run_of_head rules matcher hskips true hhead hkind))

theorem exists_yields_charsOrNot_error (hrest : cursor.rest = []) :
    ∃ failure, Yields rules (charsOrNot matcher) cursor (.error failure) cursor := by
  have hmisses (negated : Bool) : ∀ c ∈ cursor.rest.head?,
      (CharSet.ofString matcher).contains c = negated := by simp [hrest]
  have hchars := yields_run_error rules matcher hskips false (hmisses false)
  have hnot := yields_run_error rules matcher hskips true (hmisses true)
  exact ⟨_, yields_any_iff.mpr (.next hchars hmark (.next hnot hmark .exhausted))⟩

-- The repetition goes through the runs of the text ahead, one after the other. The induction is on
-- the runs: the first one is what the item takes, and it leaves the others.
theorem repeats_charsOrNot {pieces : List (List Char)}
    (h : IsRuns (CharSet.ofString matcher).contains cursor.rest pieces) :
    Repeats rules (charsOrNot matcher) none cursor
      (.ok (pieces.map fun piece => .token (String.ofList piece)))
      (cursor.rewind ⟨cursor.pos + byteSize cursor.rest, []⟩) := by
  induction pieces generalizing cursor with
  | nil =>
      have hrest : cursor.rest = [] := h.flatten_eq.symm
      obtain ⟨failure, hfails⟩ := exists_yields_charsOrNot_error rules matcher hskips hmark hrest
      have hstop : cursor.rewind ⟨cursor.pos + byteSize cursor.rest, []⟩ = cursor := by
        rw [hrest, byteSize_nil, Nat.add_zero, ← hrest]
        rfl
      rw [hstop]
      exact .ended hfails hmark
  | cons piece pieces ih =>
      have hpos : 0 < byteSize piece :=
        Nat.pos_of_ne_zero (mt byteSize_eq_zero_iff.mp (h.ne_nil piece List.mem_cons_self))
      have hflatten : cursor.rest = piece ++ pieces.flatten := h.flatten_eq.symm
      obtain ⟨c, hhead, htake, hdrop, hothers⟩ := h.of_cons
      let behind := cursor.rewind (cursor.toPlace.after piece pieces.flatten)
      have hitem : Yields rules (charsOrNot matcher) cursor (.ok (.token (String.ofList piece)))
          behind := by
        have hyields := yields_charsOrNot rules matcher hskips hmark hhead
        simp only [htake, hdrop] at hyields
        exact hyields
      have hseparates : Separates rules none behind (.ok .empty) behind := ⟨rfl, rfl⟩
      have hmoved : cursor.pos + byteSize piece ≠ cursor.pos := by omega
      have hrest : Repeats rules (charsOrNot matcher) none behind _ _ :=
        ih hskips (Nat.le_trans hmark (Nat.le_add_right _ _)) hothers
      have hstop : cursor.pos + byteSize cursor.rest =
          cursor.pos + byteSize piece + byteSize pieces.flatten := by
        rw [hflatten, byteSize_append, Nat.add_assoc]
      rw [hstop]
      exact .next hitem hseparates hmoved hrest

end Loop

-- A set and its complement together read any text to its end, and yield its maximal runs. No other
-- cut of the text has these properties.
theorem charsOrNot_yields_runs (input : List Char) (policy : Whitespace) :
    ∃ pieces, IsRuns (CharSet.ofString matcher).contains input pieces ∧
      (∀ other, IsRuns (CharSet.ofString matcher).contains input other → other = pieces) ∧
      Yields rules (.tight (.many (charsOrNot matcher) none 0)) (.ofInput input policy)
        (.ok (.children (pieces.map fun piece => .token (String.ofList piece))))
        ((Cursor.ofInput input policy).rewind ⟨byteSize input, []⟩) := by
  obtain ⟨pieces, hruns, hunique⟩ := existsUnique_isRuns (CharSet.ofString matcher).contains input
  refine ⟨pieces, hruns, hunique, ?_⟩
  have hrepeats := repeats_charsOrNot rules matcher
    (Cursor.ofInput input policy).skipsNothing_of_off (Nat.le_refl 0) hruns
  have htight := Yields.tight (yields_many_iff.mpr ⟨_, hrepeats, rfl⟩)
  have hstop : 0 + byteSize input = byteSize input := Nat.zero_add _
  rw [← hstop]
  exact htight

end Grammar

end Descent
