import Descent.Scanner

namespace Descent.Scanner

open Text

section Spans

-- As many characters as there are that are accepted: these, if the one behind them is not.
variable {accepts : Char → Bool} {text rest : List Char} (htext : ∀ c ∈ text, accepts c)
  (hrest : ∀ c ∈ rest.head?, accepts c = false)

include htext hrest

theorem takeWhile_append_of_head : (text ++ rest).takeWhile accepts = text := by
  rw [List.takeWhile_append_of_pos htext]
  cases rest with
  | nil => exact List.append_nil text
  | cons c rest => simp [hrest c rfl]

theorem dropWhile_append_of_head : (text ++ rest).dropWhile accepts = rest := by
  rw [List.dropWhile_append_of_pos htext]
  cases rest with
  | nil => rfl
  | cons c rest => simp [hrest c rfl]

end Spans

-- Whether something goes on with what follows is told by its first character.
theorem eq_false_of_head?_append {accepts : Char → Bool} {text rest : List Char}
    (h : ∀ c ∈ (text ++ rest).head?, accepts c = false) : ∀ c ∈ text.head?, accepts c = false := by
  intro c hc
  refine h c ?_
  rw [List.head?_append, hc]
  rfl

theorem take_length_takeWhile (accepts : Char → Bool) (text : List Char) :
    text.take (text.takeWhile accepts).length = text.takeWhile accepts :=
  (List.prefix_iff_eq_take.mp (List.takeWhile_prefix accepts)).symm

theorem drop_length_takeWhile (accepts : Char → Bool) (text : List Char) :
    text.drop (text.takeWhile accepts).length = text.dropWhile accepts := by
  have hdrop : (text.takeWhile accepts ++ text.dropWhile accepts).drop
      (text.takeWhile accepts).length = text.dropWhile accepts := List.drop_left
  rwa [List.takeWhile_append_dropWhile] at hdrop

-- What stops a span is not accepted.
theorem head?_dropWhile_eq_false {accepts : Char → Bool} {text : List Char} :
    ∀ c ∈ (text.dropWhile accepts).head?, accepts c = false := by
  intro c hc
  have hstop := List.head?_dropWhile_not accepts text
  rwa [hc] at hstop

namespace Quoted

-- Hexadecimal digits are ASCII characters.
theorem le_of_isHexDigit {c : Char} (h : isHexDigit c) : c ≤ 'f' := by
  simp only [isHexDigit, Bool.or_eq_true, Bool.and_eq_true, decide_eq_true_eq] at h
  rcases h with (⟨-, hle⟩ | ⟨-, hle⟩) | ⟨-, hle⟩
  · exact Char.le_trans hle (by decide)
  · exact hle
  · exact Char.le_trans hle (by decide)

theorem utf8Size_of_isHexDigit {c : Char} (h : isHexDigit c) : c.utf8Size = 1 := by
  have hval : c.val ≤ 127 := UInt32.le_trans (le_of_isHexDigit h) (by decide)
  simp [Char.utf8Size, hval]

theorem byteSize_of_hexDigits {digits : List Char} (h : digits.all isHexDigit) :
    byteSize digits = digits.length := by
  induction digits with
  | nil => rfl
  | cons c digits ih =>
      obtain ⟨hc, hdigits⟩ := Bool.and_eq_true_iff.mp h
      rw [byteSize_cons, ih hdigits, utf8Size_of_isHexDigit hc, List.length_cons, Nat.add_comm]

-- How a text stands between quotes, with what cannot stand there as it is written in another way.
inductive Spells (quote : Char) : List Char → List Char → Prop
  | nil : Spells quote [] []
  | plain {c body text} :
      c ≠ quote → c ≠ '\\' → Spells quote body text → Spells quote (c :: body) (c :: text)
  | code {a b c d body text} :
      [a, b, c, d].all isHexDigit → Spells quote body text →
      Spells quote ('\\' :: 'u' :: a :: b :: c :: d :: body) (decode [a, b, c, d] :: text)
  | escaped {c body text} :
      c ≠ 'u' → Spells quote body text → Spells quote ('\\' :: c :: body) (c :: text)

section Reading

variable {quote : Char} (hquote : '\\' ≠ quote)

theorem read_quote (quote : Char) (offset : Nat) (rest : List Char) :
    read quote offset (quote :: rest) = .ok ([], rest) := by
  rw [read.eq_def]
  simp only [if_true]

theorem read_plain {c : Char} (hne : c ≠ quote) (hbackslash : c ≠ '\\') (offset : Nat)
    (rest : List Char) :
    read quote offset (c :: rest) = (read quote (offset + c.utf8Size) rest).map (keep c) := by
  rw [read.eq_def]
  simp only [hne, hbackslash, if_false, ne_eq, not_false_eq_true, if_true]

include hquote

theorem read_code {a b c d : Char} (hdigits : [a, b, c, d].all isHexDigit) (offset : Nat)
    (rest : List Char) :
    read quote offset ('\\' :: 'u' :: a :: b :: c :: d :: rest) =
      (read quote (offset + 6) rest).map (keep (decode [a, b, c, d])) := by
  rw [read.eq_def]
  simp only [hquote, hdigits, if_false, ne_eq, not_true_eq_false, if_true]

theorem read_escaped {c : Char} (hne : c ≠ 'u') (offset : Nat) (rest : List Char) :
    read quote offset ('\\' :: c :: rest) =
      (read quote (offset + 1 + c.utf8Size) rest).map (keep c) := by
  rw [read.eq_def]
  simp only [hquote, if_false, ne_eq, not_true_eq_false]
  split
  · rename_i heq
    exact absurd (List.cons.inj heq).1 hne
  · rename_i heq
    exact absurd (List.cons.inj heq).1 hne
  · rename_i heq
    obtain ⟨rfl, rfl⟩ := List.cons.inj heq
    rfl
  · rename_i heq
    cases heq

theorem read_append_of_spells {body text : List Char} (h : Spells quote body text) (offset : Nat)
    (rest : List Char) : read quote offset (body ++ quote :: rest) = .ok (text, rest) := by
  induction h generalizing offset with
  | nil => exact read_quote quote offset rest
  | plain hne hbackslash _ ih =>
      rw [List.cons_append, read_plain hne hbackslash, ih]
      rfl
  | code hdigits _ ih =>
      simp only [List.cons_append]
      rw [read_code hquote hdigits, ih]
      rfl
  | escaped hne _ ih =>
      simp only [List.cons_append]
      rw [read_escaped hquote hne, ih]
      rfl

end Reading

theorem exists_spells_of_read {quote : Char} {offset : Nat} {body value rest : List Char}
    (h : read quote offset body = .ok (value, rest)) :
    ∃ literal, body = literal ++ quote :: rest ∧ Spells quote literal value := by
  fun_induction read quote offset body generalizing value with
  | case1 => cases h
  | case2 =>
      cases h
      exact ⟨[], rfl, .nil⟩
  | case3 offset c tail hne hplain ih =>
      obtain ⟨others, hread, rfl⟩ := keep_eq_ok h
      obtain ⟨literal, rfl, hspells⟩ := ih hread
      exact ⟨c :: literal, rfl, .plain hne hplain hspells⟩
  | case4 offset backslash _ hbackslash a b c d tail hdigits ih =>
      obtain ⟨others, hread, rfl⟩ := keep_eq_ok h
      obtain ⟨literal, rfl, hspells⟩ := ih hread
      obtain rfl := Decidable.not_not.mp hbackslash
      exact ⟨_, rfl, .code hdigits hspells⟩
  | case5 => cases h
  | case6 => cases h
  | case7 offset backslash _ hbackslash c tail _ hne ih =>
      obtain ⟨others, hread, rfl⟩ := keep_eq_ok h
      obtain ⟨literal, rfl, hspells⟩ := ih hread
      obtain rfl := Decidable.not_not.mp hbackslash
      exact ⟨_, rfl, .escaped hne hspells⟩
  | case8 => cases h

private theorem take_literal (quote : Char) (body rest : List Char) :
    (quote :: (body ++ quote :: rest)).take
      ((quote :: (body ++ quote :: rest)).length - rest.length) = quote :: (body ++ [quote]) := by
  have happend : quote :: (body ++ quote :: rest) = (quote :: (body ++ [quote])) ++ rest := by simp
  rw [happend, List.length_append, Nat.add_sub_cancel, List.take_left]

theorem scan_of_read {α : Type} {quotes : String} {quote : Char} {literal rest value : List Char}
    (hmem : quote ∈ quotes.toList)
    (h : read quote quote.utf8Size (literal ++ quote :: rest) = .ok (value, rest)) :
    scan (α := α) quotes (quote :: (literal ++ quote :: rest)) =
      .ok ⟨quote :: (literal ++ [quote]), rest, .value (.str (String.ofList value))⟩ := by
  have hquote : (!quotes.toList.contains quote) = false := by simpa using hmem
  simp only [scan, hquote, h, take_literal]
  rfl

-- The literals between two quotes of the same kind are what the scanner recognises.
theorem scan_eq_ok_iff {α : Type} {quotes : String} {text : List Char} {lexeme : Lexeme α}
    (hquotes : '\\' ∉ quotes.toList) :
    scan quotes text = .ok lexeme ↔
      ∃ quote body value rest, quote ∈ quotes.toList ∧ Spells quote body value ∧
        text = quote :: (body ++ quote :: rest) ∧
        lexeme = ⟨quote :: (body ++ [quote]), rest, .value (.str (String.ofList value))⟩ := by
  constructor
  · intro h
    unfold scan at h
    split at h
    · cases h
    · rename_i quote body
      split at h
      · cases h
      · rename_i hquote
        have hmem : quote ∈ quotes.toList := by simpa using hquote
        split at h
        · rename_i value rest hread
          obtain ⟨literal, rfl, hspells⟩ := exists_spells_of_read hread
          rw [take_literal] at h
          cases h
          exact ⟨quote, literal, value, rest, hmem, hspells, rfl, rfl⟩
        all_goals cases h
  · rintro ⟨quote, body, value, rest, hmem, hspells, rfl, rfl⟩
    have hne : '\\' ≠ quote := fun heq => hquotes (heq ▸ hmem)
    exact scan_of_read hmem (read_append_of_spells hne hspells quote.utf8Size rest)

-- What is wrong with a code is found behind its marker: the literal could go on with four digits.
theorem exists_literal_of_read {quote : Char} {offset n : Nat} {body : List Char} {fault : Fault}
    (h : read quote offset body = .error fault) (hn : fault = .shortCode n ∨ fault = .badCode n) :
    ∃ literal more text, body = literal ++ more ∧ n = offset + byteSize literal ∧
      Spells quote (literal ++ ['0', '0', '0', '0']) text := by
  have hkeep {c : Char} {found : Except Fault (List Char × List Char)}
      (h : found.map (keep c) = .error fault) : found = .error fault := by
    cases found with
    | error other => exact h
    | ok found => cases h
  have hmarker (offset : Nat) : offset + 2 = offset + byteSize ['\\', 'u'] := rfl
  have hcode : Spells quote ['\\', 'u', '0', '0', '0', '0'] _ := .code rfl .nil
  fun_induction read quote offset body with
  | case1 | case8 =>
      cases h
      rcases hn with hn | hn <;> cases hn
  | case2 => cases h
  | case3 offset c tail hne hplain ih =>
      obtain ⟨literal, more, text, rfl, rfl, hspells⟩ := ih (hkeep h)
      refine ⟨c :: literal, more, _, rfl, ?_, .plain hne hplain hspells⟩
      rw [byteSize_cons, Nat.add_assoc]
  | case4 offset backslash _ hbackslash a b c d tail hdigits ih =>
      obtain ⟨literal, more, text, rfl, rfl, hspells⟩ := ih (hkeep h)
      obtain rfl := Decidable.not_not.mp hbackslash
      refine ⟨'\\' :: 'u' :: a :: b :: c :: d :: literal, more, _, rfl, ?_, .code hdigits hspells⟩
      have hsizes : byteSize [a, b, c, d] = 4 := byteSize_of_hexDigits hdigits
      simp only [byteSize_cons, byteSize_nil] at hsizes ⊢
      have hbackslash : '\\'.utf8Size = 1 := rfl
      have hu : 'u'.utf8Size = 1 := rfl
      omega
  | case5 offset backslash _ hbackslash a b c d tail =>
      obtain rfl := Decidable.not_not.mp hbackslash
      cases h
      rcases hn with hn | hn <;> cases hn
      exact ⟨['\\', 'u'], a :: b :: c :: d :: tail, _, rfl, hmarker offset, hcode⟩
  | case6 offset backslash _ hbackslash tail =>
      obtain rfl := Decidable.not_not.mp hbackslash
      cases h
      rcases hn with hn | hn <;> cases hn
      exact ⟨['\\', 'u'], tail, _, rfl, hmarker offset, hcode⟩
  | case7 offset backslash _ hbackslash c tail _ hne ih =>
      obtain ⟨literal, more, text, rfl, rfl, hspells⟩ := ih (hkeep h)
      obtain rfl := Decidable.not_not.mp hbackslash
      refine ⟨'\\' :: c :: literal, more, _, rfl, ?_, .escaped hne hspells⟩
      have hbackslash : '\\'.utf8Size = 1 := rfl
      simp only [byteSize_cons]
      omega

-- Where a literal is missed: at its start, or behind the marker of a code without its digits.
theorem offset_of_scan {α : Type} {quotes : String} {text : List Char} {miss : Miss}
    (h : scan (α := α) quotes text = .error miss) :
    miss.offset = 0 ∨ ∃ quote literal more value, quote ∈ quotes.toList ∧
      text = quote :: (literal ++ more) ∧ miss.offset = byteSize (quote :: literal) ∧
      Spells quote (literal ++ ['0', '0', '0', '0']) value := by
  unfold scan at h
  split at h
  · cases h
    exact .inl rfl
  · rename_i quote body
    split at h
    · cases h
      exact .inl rfl
    · rename_i hquote
      have hmem : quote ∈ quotes.toList := by simpa using hquote
      have hbehind {fault : Fault} {n : Nat} (hread : read quote quote.utf8Size body = .error fault)
          (hn : fault = .shortCode n ∨ fault = .badCode n) :
          ∃ quote' literal more value, quote' ∈ quotes.toList ∧
            quote :: body = quote' :: (literal ++ more) ∧ n = byteSize (quote' :: literal) ∧
            Spells quote' (literal ++ ['0', '0', '0', '0']) value := by
        obtain ⟨literal, more, value, rfl, rfl, hspells⟩ := exists_literal_of_read hread hn
        exact ⟨quote, literal, more, value, hmem, rfl, rfl, hspells⟩
      split at h
      · cases h
      · rename_i hread
        cases h
        exact .inr (hbehind hread (.inl rfl))
      · rename_i hread
        cases h
        exact .inr (hbehind hread (.inr rfl))
      · cases h
        exact .inl rfl

theorem offset_le_of_scan {α : Type} {quotes : String} {text : List Char} {miss : Miss}
    (h : scan (α := α) quotes text = .error miss) : miss.offset ≤ byteSize text := by
  obtain hoffset | ⟨quote, literal, more, -, -, rfl, hoffset, -⟩ := offset_of_scan h
  · omega
  · rw [hoffset, ← List.cons_append, byteSize_append]
    exact Nat.le_add_right _ _

end Quoted

namespace Numeral

def IsSign (sign : List Char) : Prop := sign = [] ∨ sign = ['-'] ∨ sign = ['+']

def IsDigits (digits : List Char) : Prop := ∀ c ∈ digits, c.isDigit

-- Every part is made of the characters that belong there.
structure WellFormed (numeral : Numeral) : Prop where
  sign : IsSign numeral.sign
  whole : IsDigits numeral.whole
  fraction : ∀ digits, numeral.fraction = some digits → IsDigits digits
  exponent : ∀ marker sign digits, numeral.exponent = some (marker, sign, digits) →
    (marker = 'e' ∨ marker = 'E') ∧ IsSign sign ∧ IsDigits digits

-- What a numeral stands for: an integer of 64 bits, or a decimal number with at least one digit
-- before the exponent, and one in it if there is one.
inductive Denotes {α : Type} : Numeral → Value α → Prop
  | integer {sign whole} :
      whole ≠ [] → -0x8000000000000000 ≤ signed sign (natOfDigits whole) →
      signed sign (natOfDigits whole) < 0x8000000000000000 →
      Denotes ⟨sign, whole, none, none⟩ (.int (signed sign (natOfDigits whole)))
  | decimal {numeral : Numeral} :
      numeral.fraction ≠ none ∨ numeral.exponent ≠ none →
      numeral.whole ++ numeral.fraction.getD [] ≠ [] →
      (∀ marker sign digits, numeral.exponent = some (marker, sign, digits) → digits ≠ []) →
      Denotes numeral (.float numeral.toFloat)

theorem value?_eq_some_iff {α : Type} {numeral : Numeral} {value : Value α} :
    numeral.value? = some value ↔ numeral.Denotes value := by
  obtain ⟨sign, whole, fraction, exponent⟩ := numeral
  constructor
  · intro h
    rcases fraction with _ | fraction <;> rcases exponent with _ | ⟨marker, esign, digits⟩ <;>
      simp [value?] at h
    · obtain ⟨⟨hwhole, hle, hlt⟩, rfl⟩ := h
      exact .integer hwhole hle hlt
    · obtain ⟨⟨hwhole, hdigits⟩, rfl⟩ := h
      exact .decimal (by simp) (by simpa using hwhole) (by simpa using hdigits)
    · obtain ⟨hmantissa, rfl⟩ := h
      exact .decimal (by simp) (by simpa using hmantissa) (by simp)
    · obtain ⟨⟨hmantissa, hdigits⟩, rfl⟩ := h
      exact .decimal (by simp) (by simpa using hmantissa) (by simpa using hdigits)
  · rintro (⟨hwhole, hle, hlt⟩ | ⟨hparts, hmantissa, hexponent⟩)
    · simp [value?, hwhole, hle, hlt]
    · rcases fraction with _ | fraction <;> rcases exponent with _ | ⟨marker, esign, digits⟩ <;>
        simp_all [value?]

theorem splitSign_isSign (text : List Char) : IsSign (splitSign text).1 := by
  unfold splitSign
  split <;> simp [IsSign]

theorem splitDigits_isDigits (text : List Char) : IsDigits (splitDigits text).1 :=
  List.all_eq_true.mp List.all_takeWhile

theorem read_wellFormed (text : List Char) : (read text).1.WellFormed where
  sign := splitSign_isSign text
  whole := splitDigits_isDigits _
  fraction digits h := by
    simp only [read, splitFraction] at h
    split at h
    · cases h
      exact splitDigits_isDigits _
    · cases h
  exponent marker sign digits h := by
    simp only [read, splitExponent] at h
    split at h
    · split at h
      · rename_i hmarker
        cases h
        exact ⟨by simpa using hmarker, splitSign_isSign _, splitDigits_isDigits _⟩
      · cases h
    · cases h

-- A character that could go on with a numeral.
def continues (c : Char) : Bool := c.isDigit || "+-.eE".toList.contains c

-- A character that could go on with a numeral that stands for something already.
def prolongs (c : Char) : Bool := c.isDigit || ".eE".toList.contains c

theorem prolongs_eq_false_iff {c : Char} :
    prolongs c = false ↔ c.isDigit = false ∧ c ≠ '.' ∧ c ≠ 'e' ∧ c ≠ 'E' := by
  simp [prolongs]

theorem continues_of_mem_text {numeral : Numeral} (h : numeral.WellFormed) :
    ∀ c ∈ numeral.text, continues c := by
  have hdigits {digits : List Char} (hdigits : IsDigits digits) : ∀ c ∈ digits, continues c :=
    fun c hc => by simp [continues, hdigits c hc]
  have hsign {sign : List Char} (hsign : IsSign sign) : ∀ c ∈ sign, continues c := by
    rcases hsign with rfl | rfl | rfl <;> simp [continues]
  obtain ⟨sign, whole, fraction, exponent⟩ := numeral
  intro c hc
  simp only [text, List.mem_append] at hc
  rcases hc with ((hc | hc) | hc) | hc
  · exact hsign h.sign c hc
  · exact hdigits h.whole c hc
  · cases fraction with
    | none => cases hc
    | some digits =>
        cases List.mem_cons.mp hc with
        | inl heq => rw [heq]; decide
        | inr hc => exact hdigits (h.fraction digits rfl) c hc
  · cases exponent with
    | none => cases hc
    | some parts =>
        obtain ⟨hmarker, hparts⟩ := h.exponent _ _ _ rfl
        rcases List.mem_cons.mp hc with heq | hc
        · rcases hmarker with hmarker | hmarker <;> rw [heq, hmarker] <;> decide
        · cases List.mem_append.mp hc with
          | inl hc => exact hsign hparts.1 c hc
          | inr hc => exact hdigits hparts.2 c hc

theorem exists_text_eq_cons {α : Type} {numeral : Numeral} {value : Value α}
    (h : numeral.WellFormed) (hvalue : numeral.Denotes value) :
    ∃ c text, numeral.text = c :: text ∧ continues c := by
  have hne := text_ne_nil_of_value? (value?_eq_some_iff.mpr hvalue)
  obtain ⟨c, text, htext⟩ := List.exists_cons_of_ne_nil hne
  exact ⟨c, text, htext, continues_of_mem_text h c (htext ▸ List.mem_cons_self)⟩

section Append

variable {rest : List Char}

-- Digits never look like a sign.
theorem head?_ne_sign {digits : List Char} (hdigits : IsDigits digits) :
    ∀ c ∈ digits.head?, c ≠ '-' ∧ c ≠ '+' := by
  intro c hc
  have hdigit := hdigits c (List.mem_of_mem_head? hc)
  constructor <;> rintro rfl <;> simp at hdigit

private theorem head?_append_ne_sign {digits : List Char} (hdigits : IsDigits digits)
    (hne : digits ≠ []) (rest : List Char) : ∀ c ∈ (digits ++ rest).head?, c ≠ '-' ∧ c ≠ '+' := by
  intro c hc
  obtain ⟨digit, others, rfl⟩ := List.exists_cons_of_ne_nil hne
  exact head?_ne_sign hdigits c hc

theorem splitSign_of_head (hrest : ∀ c ∈ rest.head?, c ≠ '-' ∧ c ≠ '+') :
    splitSign rest = ([], rest) := by
  unfold splitSign
  split
  · exact absurd rfl (hrest '-' rfl).1
  · exact absurd rfl (hrest '+' rfl).2
  · rfl

theorem splitFraction_of_head (hrest : ∀ c ∈ rest.head?, c ≠ '.') :
    splitFraction rest = (none, rest) := by
  unfold splitFraction
  split
  · exact absurd rfl (hrest '.' rfl)
  · rfl

theorem splitSign_append_of_isSign {sign : List Char} (hsign : IsSign sign)
    (hrest : ∀ c ∈ rest.head?, c ≠ '-' ∧ c ≠ '+') : splitSign (sign ++ rest) = (sign, rest) := by
  rcases hsign with rfl | rfl | rfl
  · exact splitSign_of_head hrest
  · rfl
  · rfl

theorem splitDigits_append_of_isDigits {digits : List Char} (hdigits : IsDigits digits)
    (hrest : ∀ c ∈ rest.head?, c.isDigit = false) :
    splitDigits (digits ++ rest) = (digits, rest) := by
  rw [splitDigits, takeWhile_append_of_head hdigits hrest, dropWhile_append_of_head hdigits hrest]

theorem splitFraction_append_of_isDigits {fraction : Option (List Char)}
    (hfraction : ∀ digits, fraction = some digits → IsDigits digits)
    (hrest : ∀ c ∈ rest.head?, c.isDigit = false ∧ c ≠ '.') :
    splitFraction (fractionText fraction ++ rest) = (fraction, rest) := by
  cases fraction with
  | none =>
      rw [fractionText, List.nil_append]
      exact splitFraction_of_head fun c hc => (hrest c hc).2
  | some digits =>
      have hdigits := splitDigits_append_of_isDigits (hfraction digits rfl) fun c hc =>
        (hrest c hc).1
      simp only [fractionText, List.cons_append, splitFraction, hdigits]

theorem splitExponent_append_of_isDigits {exponent : Option (Char × List Char × List Char)}
    (hexponent : ∀ marker sign digits, exponent = some (marker, sign, digits) →
      (marker = 'e' ∨ marker = 'E') ∧ IsSign sign ∧ IsDigits digits)
    (hdigits : ∀ marker sign digits, exponent = some (marker, sign, digits) → digits ≠ [])
    (hrest : ∀ c ∈ rest.head?, prolongs c = false) :
    splitExponent (exponentText exponent ++ rest) = (exponent, rest) := by
  cases exponent with
  | none =>
      rw [exponentText, List.nil_append]
      cases rest with
      | nil => rfl
      | cons c rest =>
          obtain ⟨-, -, hlower, hupper⟩ := prolongs_eq_false_iff.mp (hrest c rfl)
          have hmarker : (c = 'e' || c = 'E') = false := by simp [hlower, hupper]
          simp [splitExponent, hmarker]
  | some parts =>
      obtain ⟨marker, sign, digits⟩ := parts
      obtain ⟨hmarker, hsign, hformed⟩ := hexponent _ _ _ rfl
      have hread := splitDigits_append_of_isDigits hformed fun c hc =>
        (prolongs_eq_false_iff.mp (hrest c hc)).1
      have hneSign := head?_append_ne_sign hformed (hdigits _ _ _ rfl) rest
      have hsplit := splitSign_append_of_isSign hsign hneSign
      have hmarker : (marker = 'e' || marker = 'E') = true := by simpa using hmarker
      simp only [exponentText, List.cons_append, List.append_assoc, splitExponent, hmarker, hsplit,
        hread, if_true]

theorem Denotes.mantissa_ne_nil {α : Type} {numeral : Numeral} {value : Value α}
    (h : numeral.Denotes value) : numeral.whole ++ numeral.fraction.getD [] ≠ [] := by
  cases h with
  | integer hwhole => simpa using hwhole
  | decimal _ hmantissa => exact hmantissa

theorem Denotes.digits_ne_nil {α : Type} {numeral : Numeral} {value : Value α}
    (h : numeral.Denotes value) (marker : Char) (sign digits : List Char)
    (hexponent : numeral.exponent = some (marker, sign, digits)) : digits ≠ [] := by
  cases h with
  | integer => cases hexponent
  | decimal _ _ hdigits => exact hdigits marker sign digits hexponent

-- A numeral that stands for something is read as far as it goes, even where a sign follows.
theorem read_append {α : Type} {numeral : Numeral} {value : Value α}
    (hformed : numeral.WellFormed) (hvalue : numeral.Denotes value)
    (hrest : ∀ c ∈ rest.head?, prolongs c = false) :
    read (numeral.text ++ rest) = (numeral, rest) := by
  have hmantissa := hvalue.mantissa_ne_nil
  have hdigits := hvalue.digits_ne_nil
  obtain ⟨sign, whole, fraction, exponent⟩ := numeral
  obtain ⟨hsign, hwhole, hfraction, hexponent⟩ := hformed
  have hbehindFraction : ∀ c ∈ (exponentText exponent ++ rest).head?,
      c.isDigit = false ∧ c ≠ '.' := by
    intro c hc
    cases exponent with
    | none =>
        obtain ⟨hdigit, hpoint, -, -⟩ := prolongs_eq_false_iff.mp (hrest c hc)
        exact ⟨hdigit, hpoint⟩
    | some parts =>
        cases hc
        rcases (hexponent _ _ _ rfl).1 with hmarker | hmarker <;> simp [hmarker]
  have hbehindWhole : ∀ c ∈ (fractionText fraction ++ (exponentText exponent ++ rest)).head?,
      c.isDigit = false := by
    intro c hc
    cases fraction with
    | none => exact (hbehindFraction c hc).1
    | some digits =>
        cases hc
        rfl
  have hneSign : ∀ c ∈ (whole ++ (fractionText fraction ++ (exponentText exponent ++ rest))).head?,
      c ≠ '-' ∧ c ≠ '+' := by
    by_cases hempty : whole = []
    · cases fraction with
      | none => exact absurd hempty (by simpa using hmantissa)
      | some digits =>
          rw [hempty]
          rintro c ⟨⟩
          decide
    · exact head?_append_ne_sign hwhole hempty _
  have hwholeRead := splitDigits_append_of_isDigits hwhole hbehindWhole
  have hfractionRead := splitFraction_append_of_isDigits hfraction hbehindFraction
  have hexponentRead := splitExponent_append_of_isDigits hexponent hdigits hrest
  simp only [text, List.append_assoc, read, splitSign_append_of_isSign hsign hneSign, hwholeRead,
    hfractionRead, hexponentRead]

end Append

end Numeral

-- Only a quoted literal looks further than to its start for what is wrong.
theorem offset_eq_zero_of_lex {α : Type} {policy : Whitespace} {text : List Char}
    {scanner : Scanner} {miss : Miss} (hscanner : ∀ quotes, scanner ≠ .quoted quotes)
    (h : lex (α := α) policy text scanner = .error miss) : miss.offset = 0 := by
  cases scanner with
  | quoted quotes => exact absurd rfl (hscanner quotes)
  | blank chosen => cases h
  | exact | run | regex | number | upTo =>
      simp only [lex] at h
      split at h <;> cases h
      rfl

theorem lex_exact_append {α : Type} {policy : Whitespace} (literal : String) (rest : List Char) :
    lex (α := α) policy (literal.toList ++ rest) (.exact literal) =
      .ok (.token literal.toList rest) := by
  have hprefix : literal.toList.isPrefixOf (literal.toList ++ rest) :=
    List.isPrefixOf_iff_prefix.mpr (List.prefix_append _ _)
  simp only [lex, hprefix, if_true, List.drop_left]

theorem eq_token_of_lex_exact {α : Type} {policy : Whitespace} {text : List Char}
    {literal : String} {lexeme : Lexeme α} (h : lex policy text (.exact literal) = .ok lexeme) :
    lexeme = .token literal.toList lexeme.rest := by
  simp only [lex] at h
  split at h
  · cases h
    rfl
  · cases h

-- The scanner recognises a number as far as it goes.
theorem lex_number_append {α : Type} {policy : Whitespace} {numeral : Numeral} {value : Value α}
    {rest : List Char} (hformed : numeral.WellFormed) (hvalue : numeral.Denotes value)
    (hrest : ∀ c ∈ rest.head?, Numeral.prolongs c = false) :
    lex policy (numeral.text ++ rest) .number = .ok ⟨numeral.text, rest, .value value⟩ := by
  simp only [lex, Numeral.read_append hformed hvalue hrest, Numeral.value?_eq_some_iff.mpr hvalue]

theorem denotes_of_lex_number {α : Type} {policy : Whitespace} {text : List Char}
    {lexeme : Lexeme α} (h : lex policy text .number = .ok lexeme) :
    ∃ (numeral : Numeral) (value : Value α), numeral.WellFormed ∧ numeral.Denotes value ∧
      lexeme.consumed = numeral.text ∧ lexeme.node = .value value := by
  simp only [lex] at h
  split at h
  · rename_i value hvalue
    cases h
    exact ⟨_, value, Numeral.read_wellFormed text, Numeral.value?_eq_some_iff.mp hvalue, rfl, rfl⟩
  · cases h

end Descent.Scanner
