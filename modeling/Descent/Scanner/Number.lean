import Descent.Scanner.Lexeme

namespace Descent.Scanner

-- The parts of a number as it is written. Every part may be missing, and digits may be missing
-- where they are expected.
structure Numeral where
  sign : List Char
  whole : List Char
  -- the digits behind a point
  fraction : Option (List Char)
  -- the marker, the sign and the digits of an exponent
  exponent : Option (Char × List Char × List Char)
  deriving DecidableEq, Repr

namespace Numeral

def splitSign : List Char → List Char × List Char
  | '-' :: rest => (['-'], rest)
  | '+' :: rest => (['+'], rest)
  | text => ([], text)

def splitDigits (text : List Char) : List Char × List Char :=
  (text.takeWhile Char.isDigit, text.dropWhile Char.isDigit)

def splitFraction : List Char → Option (List Char) × List Char
  | '.' :: rest =>
    let (digits, rest) := splitDigits rest
    (some digits, rest)
  | text => (none, text)

def splitExponent : List Char → Option (Char × List Char × List Char) × List Char
  | c :: rest =>
    if c = 'e' || c = 'E' then
      let (sign, rest) := splitSign rest
      let (digits, rest) := splitDigits rest
      (some (c, sign, digits), rest)
    else (none, c :: rest)
  | [] => (none, [])

-- Reads as much as there is of a number, and returns it with what follows.
def read (text : List Char) : Numeral × List Char :=
  let (sign, text) := splitSign text
  let (whole, text) := splitDigits text
  let (fraction, text) := splitFraction text
  let (exponent, text) := splitExponent text
  (⟨sign, whole, fraction, exponent⟩, text)

def fractionText : Option (List Char) → List Char
  | some digits => '.' :: digits
  | none => []

def exponentText : Option (Char × List Char × List Char) → List Char
  | some (marker, sign, digits) => marker :: sign ++ digits
  | none => []

def text (numeral : Numeral) : List Char :=
  numeral.sign ++ numeral.whole ++ fractionText numeral.fraction ++ exponentText numeral.exponent

def natOfDigits (digits : List Char) : Nat :=
  digits.foldl (fun n d => 10 * n + (d.toNat - 48)) 0

def signed (sign : List Char) (n : Nat) : Int := if sign = ['-'] then -n else n

-- The double that a numeral with a point or an exponent stands for.
def toFloat (numeral : Numeral) : Float :=
  let fraction := numeral.fraction.getD []
  let power := match numeral.exponent with
    | some (_, sign, digits) => signed sign (natOfDigits digits)
    | none => 0
  Decimal.ofScaled (numeral.sign = ['-']) (natOfDigits (numeral.whole ++ fraction))
    (power - fraction.length)

-- What a numeral stands for: an integer of 64 bits if it has neither point nor exponent, else a
-- double. There has to be a digit before the exponent, and one in the exponent if there is one.
def value? {α : Type} (numeral : Numeral) : Option (Value α) :=
  match numeral.fraction, numeral.exponent with
  | none, none =>
    let n := signed numeral.sign (natOfDigits numeral.whole)
    let fits := -0x8000000000000000 ≤ n && n < 0x8000000000000000
    if numeral.whole.isEmpty || !fits then none else some (.int n)
  | fraction, exponent =>
    let complete := match exponent with
      | some (_, _, digits) => !digits.isEmpty
      | none => true
    if (numeral.whole ++ fraction.getD []).isEmpty || !complete then none
    else some (.float numeral.toFloat)

theorem splitSign_append (text : List Char) : (splitSign text).1 ++ (splitSign text).2 = text := by
  unfold splitSign
  split <;> rfl

theorem splitDigits_append (text : List Char) :
    (splitDigits text).1 ++ (splitDigits text).2 = text :=
  List.takeWhile_append_dropWhile

theorem splitFraction_append (text : List Char) :
    fractionText (splitFraction text).1 ++ (splitFraction text).2 = text := by
  unfold splitFraction
  split
  · simp [fractionText, splitDigits_append]
  · rfl

theorem splitExponent_append (text : List Char) :
    exponentText (splitExponent text).1 ++ (splitExponent text).2 = text := by
  cases text with
  | nil => rfl
  | cons c rest =>
    simp only [splitExponent]
    split
    · simp [exponentText, splitDigits_append, splitSign_append]
    · rfl

-- A numeral as it is written and what follows it make up the text.
theorem text_append_of_read {text rest : List Char} {numeral : Numeral}
    (h : read text = (numeral, rest)) : numeral.text ++ rest = text := by
  simp only [read, Prod.mk.injEq] at h
  obtain ⟨rfl, rfl⟩ := h
  simp [Numeral.text, splitExponent_append, splitFraction_append, splitDigits_append,
    splitSign_append]

-- A numeral that stands for something is not empty.
theorem text_ne_nil_of_value? {α : Type} {numeral : Numeral} {value : Value α}
    (h : numeral.value? = some value) : numeral.text ≠ [] := by
  obtain ⟨sign, whole, fraction, exponent⟩ := numeral
  intro hnil
  simp only [text, List.append_eq_nil_iff] at hnil
  obtain ⟨⟨⟨rfl, rfl⟩, hfraction⟩, hexponent⟩ := hnil
  cases fraction with
  | some digits => simp [fractionText] at hfraction
  | none =>
      cases exponent with
      | some parts => simp [exponentText] at hexponent
      | none => simp [value?] at h

end Numeral

end Descent.Scanner
