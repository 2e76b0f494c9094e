import Descent.Proofs.Lexemes
import Descent.Proofs.Rounding
import Descent.Proofs.Yields
import Mathlib.Data.Nat.Digits.Defs

namespace Descent

namespace Scanner.Numeral

-- The longest beginning of a text that is a numeral, complete or not, and what follows it.
structure IsLongest (text : List Char) (numeral : Numeral) (rest : List Char) : Prop where
  formed : numeral.WellFormed
  text_eq : text = numeral.text ++ rest
  length_le : ∀ (other : Numeral) behind, other.WellFormed → text = other.text ++ behind →
    other.text.length ≤ numeral.text.length

section Longest

-- What a reader leaves of a text, whatever follows it: nothing that follows makes a difference
-- before the text has been read to its end.
structure Steady (unread : List Char → List Char) : Prop where
  nil : unread [] = []
  goesOn : ∀ {text} more, unread text = [] → (unread (text ++ more)).length ≤ more.length
  stops : ∀ {text} more, unread text ≠ [] → unread (text ++ more) = unread text ++ more

variable {unread later : List Char → List Char}

theorem Steady.length_le (h : Steady unread) (text : List Char) :
    (unread text).length ≤ text.length := h.goesOn text h.nil

theorem Steady.comp (hlater : Steady later) (h : Steady unread) : Steady (later ∘ unread) where
  nil := by rw [Function.comp_apply, h.nil, hlater.nil]
  goesOn {text} more hnil := by
    by_cases hread : unread text = []
    · exact (hlater.length_le _).trans (h.goesOn more hread)
    · rw [Function.comp_apply, h.stops more hread]
      exact hlater.goesOn more hnil
  stops {text} more hne := by
    have hread : unread text ≠ [] := by
      intro hread
      rw [Function.comp_apply, hread, hlater.nil] at hne
      exact hne rfl
    rw [Function.comp_apply, h.stops more hread]
    exact hlater.stops more hne

theorem steady_id : Steady id := ⟨rfl, by simp, by simp⟩

theorem steady_dropWhile (accepts : Char → Bool) : Steady (List.dropWhile accepts) where
  nil := rfl
  goesOn {text} more hnil := by
    rw [List.dropWhile_append, if_pos (by simp [hnil])]
    exact (List.dropWhile_sublist accepts).length_le
  stops {text} more hne := by
    rw [List.dropWhile_append, if_neg (by simpa using hne)]

-- What a reader leaves that only starts at certain characters.
def opened (opens : Char → Bool) (unread : List Char → List Char) : List Char → List Char
  | [] => []
  | c :: text => if opens c then unread text else c :: text

theorem opened_length_le (opens : Char → Bool) (h : Steady unread) (text : List Char) :
    (opened opens unread text).length ≤ text.length := by
  cases text with
  | nil => exact Nat.le_refl _
  | cons c text =>
      have hle := h.length_le text
      rw [opened, List.length_cons]
      split
      · omega
      · rw [List.length_cons]

theorem Steady.opened (opens : Char → Bool) (h : Steady unread) :
    Steady (opened opens unread) where
  nil := rfl
  goesOn {text} more hnil := by
    cases text with
    | nil => exact opened_length_le opens h more
    | cons c text =>
        rw [Numeral.opened] at hnil
        rw [List.cons_append, Numeral.opened]
        by_cases hc : opens c = true
        · rw [if_pos hc] at hnil ⊢
          exact h.goesOn more hnil
        · rw [if_neg hc] at hnil
          cases hnil
  stops {text} more hne := by
    cases text with
    | nil => exact absurd rfl hne
    | cons c text =>
        rw [Numeral.opened] at hne
        rw [List.cons_append, Numeral.opened, Numeral.opened]
        by_cases hc : opens c = true
        · rw [if_pos hc] at hne
          rw [if_pos hc, if_pos hc, h.stops more hne]
        · rw [if_neg hc, if_neg hc, List.cons_append]

-- What reading a numeral leaves, part by part.
def unreadSign : List Char → List Char := opened (fun c => c = '-' || c = '+') id

def unreadDigits : List Char → List Char := List.dropWhile Char.isDigit

def unreadFraction : List Char → List Char := opened (fun c => c = '.') unreadDigits

def unreadExponent : List Char → List Char :=
  opened (fun c => c = 'e' || c = 'E') (unreadDigits ∘ unreadSign)

theorem splitSign_snd (text : List Char) : (splitSign text).2 = unreadSign text := by
  cases text with
  | nil => rfl
  | cons c text =>
      by_cases hsign : c = '-' ∨ c = '+'
      · rcases hsign with rfl | rfl <;> rfl
      · have hhead : ∀ d ∈ (c :: text).head?, d ≠ '-' ∧ d ≠ '+' := by simpa using hsign
        rw [splitSign_of_head hhead]
        simp [unreadSign, opened, not_or.mp hsign]

theorem splitFraction_snd (text : List Char) : (splitFraction text).2 = unreadFraction text := by
  cases text with
  | nil => rfl
  | cons c text =>
      by_cases hpoint : c = '.'
      · rw [hpoint]
        rfl
      · have hhead : ∀ d ∈ (c :: text).head?, d ≠ '.' := by simpa using hpoint
        rw [splitFraction_of_head hhead]
        simp [unreadFraction, opened, hpoint]

theorem splitExponent_snd (text : List Char) : (splitExponent text).2 = unreadExponent text := by
  cases text with
  | nil => rfl
  | cons c text =>
      cases hmarker : (c = 'e' || c = 'E') with
      | true =>
          simp only [splitExponent, unreadExponent, opened, hmarker, if_true, Function.comp_apply,
            ← splitSign_snd]
          rfl
      | false =>
          simp only [splitExponent, unreadExponent, opened, hmarker, Bool.false_eq_true, if_false]

theorem read_snd (text : List Char) :
    (read text).2 = (unreadExponent ∘ unreadFraction ∘ unreadDigits ∘ unreadSign) text := by
  simp only [Function.comp_apply, ← splitSign_snd, ← splitFraction_snd, ← splitExponent_snd]
  rfl

theorem steady_read : Steady fun text => (read text).2 := by
  have hsign : Steady unreadSign := steady_id.opened _
  have hdigits : Steady unreadDigits := steady_dropWhile _
  have hexponent : Steady unreadExponent := (hdigits.comp hsign).opened _
  have hfraction : Steady unreadFraction := hdigits.opened _
  rw [funext read_snd]
  exact hexponent.comp (hfraction.comp (hdigits.comp hsign))

end Longest

section Uniqueness

variable {text rest : List Char} {numeral other : Numeral} {fraction : Option (List Char)}
  {exponent : Option (Char × List Char × List Char)}

section Exponent

variable (hexponent : ∀ marker sign digits, exponent = some (marker, sign, digits) →
  (marker = 'e' ∨ marker = 'E') ∧ IsSign sign ∧ IsDigits digits)

include hexponent

theorem splitExponent_exponentText : splitExponent (exponentText exponent) = (exponent, []) := by
  cases exponent with
  | none => rfl
  | some parts =>
      obtain ⟨marker, sign, digits⟩ := parts
      obtain ⟨hmarker, hsign, hdigits⟩ := hexponent _ _ _ rfl
      have hsplit := splitSign_append_of_isSign hsign (head?_ne_sign hdigits)
      have hread : splitDigits (digits ++ []) = (digits, []) :=
        splitDigits_append_of_isDigits hdigits (by simp)
      rw [List.append_nil] at hread
      have hmarker : (marker = 'e' || marker = 'E') = true := by simpa using hmarker
      simp only [exponentText, List.cons_append, splitExponent, hmarker, hsplit, hread, if_true]

theorem head?_exponentText : ∀ c ∈ (exponentText exponent).head?, c = 'e' ∨ c = 'E' := by
  cases exponent with
  | none => simp [exponentText]
  | some parts =>
      obtain ⟨marker, sign, digits⟩ := parts
      simpa [exponentText] using (hexponent _ _ _ rfl).1

theorem head?_fractionText_append :
    ∀ c ∈ (fractionText fraction ++ exponentText exponent).head?, c = '.' ∨ c = 'e' ∨ c = 'E' := by
  cases fraction with
  | none =>
      intro c hc
      exact .inr (head?_exponentText hexponent c hc)
  | some digits => simp [fractionText]

end Exponent

-- A numeral is read to its end, also where it is not complete.
theorem read_text (h : numeral.WellFormed) : read numeral.text = (numeral, []) := by
  obtain ⟨sign, whole, fraction, exponent⟩ := numeral
  obtain ⟨hsign, hwhole, hfraction, hexponent⟩ := h
  have hbehindFraction : ∀ c ∈ (exponentText exponent).head?, c.isDigit = false ∧ c ≠ '.' := by
    intro c hc
    rcases head?_exponentText hexponent c hc with rfl | rfl <;> decide
  have hbehindWhole : ∀ c ∈ (fractionText fraction ++ exponentText exponent).head?,
      c.isDigit = false := by
    intro c hc
    rcases head?_fractionText_append hexponent c hc with rfl | rfl | rfl <;> decide
  have hbehindSign : ∀ c ∈ (whole ++ (fractionText fraction ++ exponentText exponent)).head?,
      c ≠ '-' ∧ c ≠ '+' := by
    intro c hc
    cases whole with
    | nil => rcases head?_fractionText_append hexponent c hc with rfl | rfl | rfl <;> decide
    | cons digit digits =>
        cases hc
        exact head?_ne_sign hwhole _ rfl
  simp only [text, List.append_assoc, read, splitSign_append_of_isSign hsign hbehindSign,
    splitDigits_append_of_isDigits hwhole hbehindWhole,
    splitFraction_append_of_isDigits hfraction hbehindFraction,
    splitExponent_exponentText hexponent]

-- Reading a text yields the longest numeral that it begins with.
theorem isLongest_of_read (h : read text = (numeral, rest)) : IsLongest text numeral rest := by
  have htext : text = numeral.text ++ rest := (text_append_of_read h).symm
  have hformed : (read text).1.WellFormed := read_wellFormed text
  rw [h] at hformed
  refine ⟨hformed, htext, fun other behind hother hsplit => ?_⟩
  have hle : rest.length ≤ behind.length := by
    have hread := steady_read.goesOn behind (congrArg Prod.snd (read_text hother))
    rwa [← hsplit, h] at hread
  have hlength : (numeral.text ++ rest).length = (other.text ++ behind).length := by
    rw [← htext, hsplit]
  rw [List.length_append, List.length_append] at hlength
  omega

-- There is one longest numeral, since what is written tells the parts.
theorem IsLongest.unique (h : IsLongest text numeral rest) {behind : List Char}
    (hother : IsLongest text other behind) : numeral = other ∧ rest = behind := by
  have hlength : numeral.text.length = other.text.length :=
    Nat.le_antisymm (hother.length_le _ _ h.formed h.text_eq)
      (h.length_le _ _ hother.formed hother.text_eq)
  obtain ⟨htext, hrest⟩ := List.append_inj (h.text_eq.symm.trans hother.text_eq) hlength
  have hread := read_text h.formed
  rw [htext, read_text hother.formed] at hread
  exact ⟨(congrArg Prod.fst hread).symm, hrest⟩

theorem read_eq_iff_isLongest : read text = (numeral, rest) ↔ IsLongest text numeral rest := by
  refine ⟨isLongest_of_read, fun h => ?_⟩
  have hread : IsLongest text (read text).1 (read text).2 := isLongest_of_read rfl
  obtain ⟨hnumeral, hrest⟩ := hread.unique h
  exact Prod.ext hnumeral hrest

end Uniqueness

section Meaning

-- The number that decimal digits stand for.
def decimal (digits : List Char) : ℕ :=
  Nat.ofDigits 10 (digits.reverse.map fun digit => digit.toNat - '0'.toNat)

-- The integer that a numeral with neither point nor exponent stands for.
def integer (numeral : Numeral) : ℤ := signed numeral.sign (decimal numeral.whole)

-- The power of ten of the exponent, zero if there is none.
def power (numeral : Numeral) : ℤ :=
  match numeral.exponent with
  | some (_, sign, digits) => signed sign (decimal digits)
  | none => 0

-- The number that a numeral stands for, its sign apart.
def magnitude (numeral : Numeral) : ℚ :=
  let fraction := numeral.fraction.getD []
  (decimal numeral.whole + decimal fraction / 10 ^ fraction.length) * 10 ^ numeral.power

-- What is a number: there is a digit before the exponent, and one in it if there is one, and an
-- integer fits into 64 bits.
structure IsNumber (numeral : Numeral) : Prop where
  mantissa : numeral.whole ++ numeral.fraction.getD [] ≠ []
  digits : ∀ marker sign digits, numeral.exponent = some (marker, sign, digits) → digits ≠ []
  fits : numeral.fraction = none → numeral.exponent = none →
    -2 ^ 63 ≤ numeral.integer ∧ numeral.integer ≤ 2 ^ 63 - 1

-- The value of a number: the integer itself, or the double nearest to it if there is a point or an
-- exponent.
inductive Means {α : Type} (numeral : Numeral) : Value α → Prop
  | integer : numeral.fraction = none → numeral.exponent = none →
      Means numeral (.int numeral.integer)
  | float {double} : numeral.fraction ≠ none ∨ numeral.exponent ≠ none →
      Decimal.Rounds (numeral.sign = ['-']) numeral.magnitude double →
      Means numeral (.float double)

variable {α : Type} {numeral : Numeral} {value other : Value α}

theorem Means.unique (h : numeral.Means value) (hother : numeral.Means other) : value = other := by
  cases h with
  | integer hfraction hexponent =>
      cases hother with
      | integer => rfl
      | float hparts => simp [hfraction, hexponent] at hparts
  | float hparts hrounds =>
      cases hother with
      | integer hfraction hexponent => simp [hfraction, hexponent] at hparts
      | float _ hroundsOther => rw [hrounds.unique hroundsOther]

theorem natOfDigits_eq_decimal (digits : List Char) : natOfDigits digits = decimal digits := by
  rw [decimal, Nat.ofDigits_eq_foldr, List.foldr_map, List.foldr_reverse, natOfDigits]
  congr 1
  funext n digit
  rw [Nat.add_comm, Nat.cast_id]
  rfl

theorem decimal_append (digits more : List Char) :
    decimal (digits ++ more) = decimal more + 10 ^ more.length * decimal digits := by
  simp [decimal, Nat.ofDigits_append]

-- Leaving out the point and taking its place off the exponent makes no difference.
theorem magnitude_eq (numeral : Numeral) :
    numeral.magnitude = decimal (numeral.whole ++ numeral.fraction.getD []) *
      10 ^ (numeral.power - (numeral.fraction.getD []).length) := by
  rw [magnitude, decimal_append, zpow_sub₀ (by norm_num), zpow_natCast]
  push_cast
  field_simp
  ring

theorem toFloat_eq (numeral : Numeral) :
    numeral.toFloat = Decimal.ofScaled (numeral.sign = ['-'])
      (decimal (numeral.whole ++ numeral.fraction.getD []))
      (numeral.power - (numeral.fraction.getD []).length) := by
  obtain ⟨sign, whole, fraction, exponent⟩ := numeral
  cases exponent with
  | none => simp only [toFloat, power, natOfDigits_eq_decimal]
  | some parts => simp only [toFloat, power, natOfDigits_eq_decimal]

theorem toFloat_rounds (numeral : Numeral) :
    Decimal.Rounds (numeral.sign = ['-']) numeral.magnitude numeral.toFloat := by
  rw [toFloat_eq, magnitude_eq]
  exact Decimal.ofScaled_rounds _ _ _

theorem Denotes.means (h : numeral.Denotes value) : numeral.Means value := by
  cases h with
  | integer =>
      rw [natOfDigits_eq_decimal]
      exact .integer rfl rfl
  | decimal hparts => exact .float hparts (toFloat_rounds numeral)

theorem exists_denotes_iff : (∃ value : Value α, numeral.Denotes value) ↔ numeral.IsNumber := by
  constructor
  · rintro ⟨value, h⟩
    refine ⟨h.mantissa_ne_nil, h.digits_ne_nil, fun hfraction hexponent => ?_⟩
    cases h with
    | integer hwhole hle hlt =>
        rw [natOfDigits_eq_decimal] at hle hlt
        simp only [integer]
        omega
    | decimal hparts => simp [hfraction, hexponent] at hparts
  · rintro ⟨hmantissa, hdigits, hfits⟩
    by_cases hparts : numeral.fraction ≠ none ∨ numeral.exponent ≠ none
    · exact ⟨_, .decimal hparts hmantissa hdigits⟩
    · obtain ⟨sign, whole, fraction, exponent⟩ := numeral
      simp only [ne_eq, not_or, Classical.not_not] at hparts
      obtain ⟨rfl, rfl⟩ := hparts
      have hwhole : whole ≠ [] := by simpa using hmantissa
      have hbounds := hfits rfl rfl
      simp only [integer, ← natOfDigits_eq_decimal] at hbounds
      exact ⟨_, .integer hwhole (by omega) (by omega)⟩

end Meaning

end Scanner.Numeral

namespace Grammar

open Scanner

-- A number is read as far as it goes and stands for what is written, whatever its shape: the
-- scanner matches where the longest numeral is a number, and fails behind the blanks otherwise.
theorem number_reads_longest {α : Type} (rules : Rules α) (cursor : Cursor) :
    let start := cursor.skipBlank
    (∃ numeral rest, Numeral.IsLongest start.rest numeral rest) ∧
    ∀ numeral rest, Numeral.IsLongest start.rest numeral rest →
      (numeral.IsNumber → ∃ value, numeral.Means value ∧
        (∀ other, numeral.Means other → other = value) ∧
        Yields rules .number cursor (.ok (.value value))
          (start.rewind (start.toPlace.after numeral.text rest))) ∧
      (¬numeral.IsNumber → Yields rules .number cursor (.error ⟨start.pos, "number"⟩) cursor) := by
  intro start
  have hstart : scanStart .number cursor = start := rfl
  refine ⟨⟨_, _, Numeral.isLongest_of_read rfl⟩, fun numeral rest hlongest => ⟨?_, ?_⟩⟩
  · intro hnumber
    obtain ⟨value, hdenotes⟩ := (Numeral.exists_denotes_iff (α := α)).mpr hnumber
    have hlex : Scanner.number.lex cursor.policy start.rest =
        .ok ⟨numeral.text, rest, .value value⟩ := by
      simp only [Scanner.lex, Numeral.read_eq_iff_isLongest.mpr hlongest,
        Numeral.value?_eq_some_iff.mpr hdenotes]
    refine ⟨value, hdenotes.means, fun other hother => hother.unique hdenotes.means, ?_⟩
    exact yields_scan_of_lex hstart hlex
  · intro hnot
    have hnone : numeral.value? (α := α) = none := by
      refine Option.eq_none_iff_forall_ne_some.mpr fun value hvalue => hnot ?_
      exact Numeral.exists_denotes_iff.mp ⟨value, Numeral.value?_eq_some_iff.mp hvalue⟩
    have hlex : Scanner.number.lex (α := α) cursor.policy start.rest = .error ⟨0, "number"⟩ := by
      simp only [Scanner.lex, Numeral.read_eq_iff_isLongest.mpr hlongest, hnone]
    exact yields_scan_of_miss hstart hlex

end Grammar

end Descent
