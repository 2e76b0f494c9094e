import Descent.Proofs.Html.Dialect

namespace Descent.Html

open Grammar Scanner Text
open Regex (CharClass Expr)
open Json (Blank Token significant)

variable {policy : Whitespace} {cursor stop : Cursor} {node : Node Tag} {literal rest : List Char}

section Characters

-- Blanks are neither letters nor digits nor hyphens.
theorem letterDigitOrHyphen_of_isAsciiBlank {c : Char} (h : isAsciiBlank c) :
    letterDigitOrHyphen.contains c = false :=
  isAsciiBlank_cases h ⟨rfl, rfl, rfl, rfl, rfl, rfl⟩

theorem letterOrDigit_of_isAsciiBlank {c : Char} (h : isAsciiBlank c) :
    letterOrDigit.contains c = false :=
  isAsciiBlank_cases h ⟨rfl, rfl, rfl, rfl, rfl, rfl⟩

theorem isAsciiBlank_of_letter {c : Char} (h : letter.contains c) : isAsciiBlank c = false :=
  isAsciiBlank_eq_false (forall_isAsciiBlank_iff.mpr ⟨rfl, rfl, rfl, rfl, rfl, rfl⟩) h

theorem contains_eq_not_isPlain (c : Char) :
    (CharSet.ofString "<>").contains c = !isPlain c := by
  have hset : CharSet.ofString "<>" = ⟨['<', '>'], []⟩ := rfl
  rw [hset]
  by_cases hopening : c = '<'
  · simp [CharSet.contains, isPlain, hopening]
  · simp [CharSet.contains, isPlain, hopening, bne, Bool.beq_eq_decide_eq]

end Characters

section Names

-- A letter, and any number of characters of a class behind it.
def word (others : CharClass) : Expr := .seq (.one letter) (.rep (.one others) 0 none false)

-- Behind the letter the match goes on as long as there are characters of the class.
theorem longestFrom_behind_letter (others : CharClass) (before : Option Char) (text : List Char)
    (length : Nat) (best : Option Nat) :
    Expr.longestFrom [.seq .empty (.rep (.one others) 0 none false)] before text length best =
      some (length + (text.takeWhile others.contains).length) := by
  induction text generalizing before length best with
  | nil => simp [Expr.longestFrom, Expr.nullable]
  | cons c rest ih =>
      cases hc : others.contains c with
      | false => simp [Expr.longestFrom, Expr.nullable, Expr.step, hc]
      | true =>
          simp [Expr.longestFrom, Expr.nullable, Expr.step, hc, List.eraseDups_cons, ih]
          omega

theorem longest_word_cons (others : CharClass) (c : Char) (rest : List Char) :
    (word others).longest (c :: rest) =
      if letter.contains c then some ((rest.takeWhile others.contains).length + 1) else none := by
  cases hc : letter.contains c with
  | false => simp [word, Expr.longest, Expr.longestFrom, Expr.nullable, Expr.step, hc]
  | true =>
      simp [word, Expr.longest, Expr.longestFrom, Expr.nullable, Expr.step, hc,
        List.eraseDups_cons, longestFrom_behind_letter, Nat.add_comm]

variable {pattern : Regex} {others : CharClass} (hpattern : pattern.expr = word others)

include hpattern

theorem lex_name_eq_ok_iff {α : Type} {text : List Char} {lexeme : Lexeme α} :
    lex policy text (.regex pattern) = .ok lexeme ↔
      ∃ c more, letter.contains c ∧ text = c :: more ∧
        lexeme = .token (c :: more.takeWhile others.contains) (more.dropWhile others.contains) := by
  cases text with
  | nil => simp [lex, hpattern, word, Expr.longest, Expr.longestFrom, Expr.nullable]
  | cons c more =>
      cases hc : letter.contains c with
      | false =>
          simp only [lex, hpattern, longest_word_cons, hc]
          constructor
          · rintro ⟨⟩
          · rintro ⟨_, _, hletter, ⟨⟩, -⟩
            cases hc.symm.trans hletter
      | true =>
          simp only [lex, hpattern, longest_word_cons, hc, if_true, List.take_succ_cons,
            List.drop_succ_cons, take_length_takeWhile, drop_length_takeWhile]
          constructor
          · rintro ⟨⟩
            exact ⟨c, more, hc, rfl, rfl⟩
          · rintro ⟨_, _, -, ⟨⟩, rfl⟩
            rfl

theorem opens_name : Opens Tag letter.contains (.regex pattern) := by
  intro text lexeme hlex
  obtain ⟨c, more, hc, rfl, -⟩ := (lex_name_eq_ok_iff hpattern).mp hlex
  exact ⟨c, rfl, hc⟩

-- A name is read as far as it goes.
theorem exists_token_of_name (hready : Ready cursor)
    (h : Yields rules (.scan (.regex pattern)) cursor (.ok node) stop) :
    ∃ name literal, IsName others name ∧ Token name literal ∧ cursor.rest = literal ++ stop.rest ∧
      node = .token (String.ofList name) ∧ ∀ c ∈ stop.rest.head?, others.contains c = false := by
  obtain ⟨lexeme, literal, hlex, htoken, hrest, rfl⟩ := hready.exists_token rfl h
  have hstop := hready.rest_eq_of_lex rfl h hlex
  obtain ⟨c, more, hc, htext, rfl⟩ := (lex_name_eq_ok_iff hpattern).mp hlex
  refine ⟨_, literal, .mk hc (List.all_eq_true.mp List.all_takeWhile), htoken, hrest, rfl, ?_⟩
  rw [hstop]
  exact head?_dropWhile_eq_false

theorem yields_name (hready : Ready cursor) {name : List Char} (hname : IsName others name)
    (htoken : Token name literal) (hrest : cursor.rest = literal ++ rest)
    (hbehind : ∀ c ∈ rest.head?, others.contains c = false) :
    ∃ stop, Yields rules (.scan (.regex pattern)) cursor (.ok (.token (String.ofList name))) stop ∧
      stop.rest = rest ∧ Ready stop := by
  cases hname with
  | @mk c more hc hothers =>
      obtain ⟨hblank⟩ := htoken
      have hsignificant : significant cursor.rest = c :: (more ++ rest) := by
        rw [hrest, List.append_assoc]
        refine Json.significant_append hblank ?_
        rintro _ ⟨⟩
        exact isAsciiBlank_of_letter hc
      have hlex : lex (α := Tag) .ascii (significant cursor.rest) (.regex pattern) = .ok _ :=
        (lex_name_eq_ok_iff hpattern).mpr ⟨c, more ++ rest, hc, hsignificant, rfl⟩
      rw [takeWhile_append_of_head hothers hbehind,
        dropWhile_append_of_head hothers hbehind] at hlex
      exact hready.yields_scan rfl hlex

end Names

section Contents

theorem lex_content_eq_ok_iff {α : Type} {text : List Char} {lexeme : Lexeme α} :
    lex policy text (.run "<>" true 1 none) = .ok lexeme ↔
      text.takeWhile isPlain ≠ [] ∧
        lexeme = .token (text.takeWhile isPlain) (text.dropWhile isPlain) := by
  have hset : (fun c => (CharSet.ofString "<>").contains c != true) = isPlain := by
    funext c
    simp [contains_eq_not_isPlain]
  simp only [lex, prefixOf, hset, drop_length_takeWhile, Nat.lt_one_iff, List.length_eq_zero_iff]
  split
  · rename_i hnil
    constructor
    · intro h
      cases h
    · exact fun h => absurd hnil h.1
  · rename_i hne
    constructor
    · rintro ⟨⟩
      exact ⟨hne, rfl⟩
    · rintro ⟨-, rfl⟩
      rfl

theorem opens_content : Opens Tag isPlain (.run "<>" true 1 none) := by
  intro text lexeme hlex
  have hne := (lex_content_eq_ok_iff.mp hlex).1
  cases text with
  | nil => exact absurd rfl hne
  | cons c text =>
      cases hc : isPlain c with
      | false => simp [hc] at hne
      | true => exact ⟨c, rfl, hc⟩

-- A text goes on up to the next angle bracket.
theorem exists_token_of_content (hready : Ready cursor)
    (h : Yields rules (.notChars "<>") cursor (.ok node) stop) :
    ∃ content blank, IsContent content ∧ Blank blank ∧
      cursor.rest = blank ++ content ++ stop.rest ∧ node = .token (String.ofList content) ∧
      Bare stop.rest := by
  obtain ⟨lexeme, literal, hlex, ⟨hblank⟩, hrest, rfl⟩ := hready.exists_token rfl h
  have hstop := hready.rest_eq_of_lex rfl h hlex
  obtain ⟨hne, rfl⟩ := lex_content_eq_ok_iff.mp hlex
  refine ⟨_, _, ⟨List.all_eq_true.mp List.all_takeWhile, ?_⟩, hblank, hrest, rfl, ?_⟩
  · obtain ⟨c, more, hcontent⟩ := List.exists_cons_of_ne_nil hne
    have hhead : (significant cursor.rest).head? = some c := by
      rw [← List.takeWhile_append_dropWhile (p := isPlain) (l := significant cursor.rest), hcontent]
      rfl
    exact ⟨c, hcontent ▸ rfl, head?_dropWhile_eq_false c hhead⟩
  · rw [hstop]
    exact head?_dropWhile_eq_false

theorem yields_content (hready : Ready cursor) {content blank : List Char}
    (hcontent : IsContent content) (hblank : Blank blank)
    (hrest : cursor.rest = blank ++ content ++ rest) (hbehind : Bare rest) :
    ∃ stop, Yields rules (.notChars "<>") cursor (.ok (.token (String.ofList content))) stop ∧
      stop.rest = rest ∧ Ready stop := by
  obtain ⟨hplain, first, hfirst, hsolid⟩ := hcontent
  obtain ⟨more, rfl⟩ := List.head?_eq_some_iff.mp hfirst
  have hsignificant : significant cursor.rest = first :: more ++ rest := by
    rw [hrest, List.append_assoc]
    refine Json.significant_append hblank ?_
    rintro _ ⟨⟩
    exact hsolid
  have hlex : lex (α := Tag) .ascii (significant cursor.rest) (.run "<>" true 1 none) =
      .ok (.token (first :: more) rest) := by
    rw [lex_content_eq_ok_iff, hsignificant, takeWhile_append_of_head hplain hbehind,
      dropWhile_append_of_head hplain hbehind]
    exact ⟨List.cons_ne_nil _ _, rfl⟩
  exact hready.yields_scan rfl hlex

end Contents

end Descent.Html
