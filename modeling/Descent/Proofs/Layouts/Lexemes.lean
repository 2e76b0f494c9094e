import Descent.Proofs.Layouts.Texts

-- Scanners whose lexemes have no blanks in them find the same in texts that differ in blanks only.
namespace Descent.Scanner

open Text

variable {text other : List Char}

-- The lexemes of the scanner are words.
def BlankFree : Scanner → Prop
  | exact literal => Solid literal.toList
  | run matcher negated _ _ =>
    ∀ c, isAsciiBlank c → ((CharSet.ofString matcher).contains c != negated) = false
  | number => True
  | regex _ | quoted _ | upTo _ | blank _ => False

instance : DecidablePred BlankFree
  | exact literal => inferInstanceAs (Decidable (Solid literal.toList))
  | run _ _ _ _ => decidable_of_iff' _ forall_isAsciiBlank_iff
  | number => isTrue trivial
  | regex _ | quoted _ | upTo _ | blank _ => isFalse id

theorem BlankFree.keepsBlank_eq_false {scanner : Scanner} (h : scanner.BlankFree)
    {skips : Char → Bool} (hskips : ∀ c, skips c → isAsciiBlank c) :
    scanner.keepsBlank skips = false := by
  cases scanner with
  | exact literal =>
      simp only [keepsBlank]
      cases hhead : literal.toList.head? with
      | none => rfl
      | some c =>
          have hc : isAsciiBlank c = false := h c (List.mem_of_head? hhead)
          cases hskip : skips c with
          | false => exact hskip
          | true => cases hc.symm.trans (hskips c hskip)
  | run | number => rfl
  | regex | quoted | upTo | blank => cases h

namespace Numeral

theorem isDigit_of_isAsciiBlank {c : Char} (h : isAsciiBlank c) : c.isDigit = false :=
  (Bool.or_eq_false_iff.mp (Json.not_continues_of_isAsciiBlank h)).1

-- A blank is no part of a number.
theorem ne_of_isAsciiBlank {c d : Char} (h : isAsciiBlank c) (hd : continues d) : c ≠ d := by
  rintro rfl
  cases (Json.not_continues_of_isAsciiBlank h).symm.trans hd

-- What is split off as a part of a number is the same in both texts.
def Agrees {β : Type} (split : List Char → β × List Char) : Prop :=
  ∀ {text other}, Relaid text other →
    (split other).1 = (split text).1 ∧ Relaid (split text).2 (split other).2

theorem agrees_splitDigits : Agrees splitDigits := by
  intro text other h
  exact ⟨(h.takeWhile_eq fun _ => isDigit_of_isAsciiBlank).symm,
    h.dropWhile fun _ => isDigit_of_isAsciiBlank⟩

theorem agrees_splitSign : Agrees splitSign := by
  intro text other h
  obtain ⟨c, rest, rest', rfl, rfl, hc, hrest⟩ | ⟨htext, hother⟩ := h.exists_cons_or_blank
  · by_cases hminus : c = '-'
    · rw [hminus]
      exact ⟨rfl, hrest⟩
    by_cases hplus : c = '+'
    · rw [hplus]
      exact ⟨rfl, hrest⟩
    have hhead (rest : List Char) : splitSign (c :: rest) = ([], c :: rest) := by
      refine splitSign_of_head ?_
      rintro _ ⟨⟩
      exact ⟨hminus, hplus⟩
    rw [hhead, hhead]
    exact ⟨rfl, .solid hc hrest⟩
  · have hhead {text : List Char} (h : StartsBlank text) : splitSign text = ([], text) := by
      refine splitSign_of_head fun c hc => ?_
      exact ⟨ne_of_isAsciiBlank (h c hc) rfl, ne_of_isAsciiBlank (h c hc) rfl⟩
    rw [hhead htext, hhead hother]
    exact ⟨rfl, h⟩

theorem agrees_splitFraction : Agrees splitFraction := by
  intro text other h
  obtain ⟨c, rest, rest', rfl, rfl, hc, hrest⟩ | ⟨htext, hother⟩ := h.exists_cons_or_blank
  · by_cases hpoint : c = '.'
    · rw [hpoint]
      obtain ⟨hdigits, hmore⟩ := agrees_splitDigits hrest
      exact ⟨congrArg some hdigits, hmore⟩
    have hhead (rest : List Char) : splitFraction (c :: rest) = (none, c :: rest) := by
      refine splitFraction_of_head ?_
      rintro _ ⟨⟩
      exact hpoint
    rw [hhead, hhead]
    exact ⟨rfl, .solid hc hrest⟩
  · have hhead {text : List Char} (h : StartsBlank text) : splitFraction text = (none, text) :=
      splitFraction_of_head fun c hc => ne_of_isAsciiBlank (h c hc) rfl
    rw [hhead htext, hhead hother]
    exact ⟨rfl, h⟩

theorem splitExponent_of_startsBlank (h : StartsBlank text) :
    splitExponent text = (none, text) := by
  cases text with
  | nil => rfl
  | cons c rest =>
      have hlower : c ≠ 'e' := ne_of_isAsciiBlank (h c rfl) rfl
      have hupper : c ≠ 'E' := ne_of_isAsciiBlank (h c rfl) rfl
      simp only [splitExponent, hlower, hupper, decide_false, Bool.or_self, Bool.false_eq_true,
        if_false]

theorem agrees_splitExponent : Agrees splitExponent := by
  intro text other h
  obtain ⟨c, rest, rest', rfl, rfl, hc, hrest⟩ | ⟨htext, hother⟩ := h.exists_cons_or_blank
  · obtain ⟨hsign, hbehind⟩ := agrees_splitSign hrest
    obtain ⟨hdigits, hmore⟩ := agrees_splitDigits hbehind
    simp only [splitExponent]
    split
    · exact ⟨by rw [hsign, hdigits], hmore⟩
    · exact ⟨rfl, .solid hc hrest⟩
  · rw [splitExponent_of_startsBlank htext, splitExponent_of_startsBlank hother]
    exact ⟨rfl, h⟩

theorem agrees_read : Agrees read := by
  intro text other h
  obtain ⟨hsign, hbehindSign⟩ := agrees_splitSign h
  obtain ⟨hwhole, hbehindWhole⟩ := agrees_splitDigits hbehindSign
  obtain ⟨hfraction, hbehindFraction⟩ := agrees_splitFraction hbehindWhole
  obtain ⟨hexponent, hrest⟩ := agrees_splitExponent hbehindFraction
  exact ⟨by simp only [read, hsign, hwhole, hfraction, hexponent], hrest⟩

end Numeral

section Lex

variable {α : Type} {scanner : Scanner} {policy : Whitespace}

-- The lexeme is a word, and in the other text it is the same.
structure SameLexeme (policy : Whitespace) (scanner : Scanner) (other : List Char)
    (lexeme : Lexeme α) (rest' : List Char) : Prop where
  solid : Solid lexeme.consumed
  rest : Relaid lexeme.rest rest'
  lex : scanner.lex policy other = .ok { lexeme with rest := rest' }

theorem prefixOf_eq {accepts : Char → Bool} (haccepts : ∀ c, isAsciiBlank c → accepts c = false)
    (max : Option Nat) (h : Relaid text other) :
    prefixOf accepts max other = prefixOf accepts max text := by
  cases max with
  | none => exact (h.takeWhile_eq haccepts).symm
  | some n =>
      simp only [prefixOf]
      rw [← List.take_takeWhile, ← List.take_takeWhile, h.takeWhile_eq haccepts]

theorem solid_prefixOf {accepts : Char → Bool} (haccepts : ∀ c, isAsciiBlank c → accepts c = false)
    (max : Option Nat) (text : List Char) : Solid (prefixOf accepts max text) := by
  intro c hc
  exact isAsciiBlank_eq_false haccepts (List.all_eq_true.mp List.all_takeWhile c hc)

theorem exists_lexeme (hscanner : scanner.BlankFree) (h : Relaid text other) {lexeme : Lexeme α}
    (hlex : scanner.lex policy text = .ok lexeme) :
    ∃ rest', SameLexeme policy scanner other lexeme rest' := by
  have happend := consumed_append_of_lex hlex
  cases scanner with
  | exact literal =>
      rw [← happend, eq_token_of_lex_exact hlex] at h
      obtain ⟨rest', rfl, hrest⟩ := h.exists_append hscanner
      rw [eq_token_of_lex_exact hlex]
      exact ⟨rest', hscanner, hrest, lex_exact_append literal rest'⟩
  | run matcher negated min max =>
      have hfound := prefixOf_eq hscanner max h
      have hsolid := solid_prefixOf hscanner max text
      simp only [lex] at hlex
      split at hlex
      · cases hlex
      · rename_i hmin
        cases hlex
        rw [← happend] at h
        obtain ⟨rest', rfl, hrest⟩ := h.exists_append hsolid
        refine ⟨rest', hsolid, hrest, ?_⟩
        simp only [Lexeme.token] at hfound ⊢
        simp only [lex, hfound, hmin, if_false, List.drop_left]
        rfl
  | number =>
      obtain ⟨hnumeral, hrest⟩ := Numeral.agrees_read h
      have hformed := Numeral.read_wellFormed text
      have hsolid : Solid (Numeral.read text).1.text := fun c hc =>
        Json.not_isAsciiBlank_of_continues (Numeral.continues_of_mem_text hformed c hc)
      simp only [lex] at hlex
      split at hlex
      · rename_i value hvalue
        cases hlex
        refine ⟨(Numeral.read other).2, hsolid, hrest, ?_⟩
        simp only [lex, hnumeral, hvalue]
      · cases hlex
  | regex | quoted | upTo | blank => cases hscanner

-- Such a scanner can say one thing only about what it misses.
theorem miss_eq (hscanner : scanner.BlankFree) {miss miss' : Miss}
    (hlex : scanner.lex (α := α) policy text = .error miss)
    (hlex' : scanner.lex (α := α) policy other = .error miss') : miss' = miss := by
  cases scanner with
  | exact | run | number =>
      simp only [lex] at hlex hlex'
      split at hlex <;> cases hlex
      split at hlex' <;> cases hlex'
      rfl
  | regex | quoted | upTo | blank => cases hscanner

theorem lex_eq_error (hscanner : scanner.BlankFree) (h : Relaid text other) {miss : Miss}
    (hlex : scanner.lex (α := α) policy text = .error miss) :
    scanner.lex (α := α) policy other = .error miss ∧ miss.offset = 0 := by
  constructor
  · cases hother : scanner.lex (α := α) policy other with
    | error miss' => rw [miss_eq hscanner hlex hother]
    | ok lexeme =>
        obtain ⟨rest', -, -, htext⟩ := exists_lexeme hscanner h.symm hother
        cases hlex.symm.trans htext
  · refine offset_eq_zero_of_lex ?_ hlex
    rintro quotes rfl
    exact hscanner

end Lex

end Descent.Scanner
