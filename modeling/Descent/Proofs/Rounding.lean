import Descent.Decimal.Nearest
import Mathlib.Algebra.Order.Field.Power
import Mathlib.Data.Rat.Cast.Order
import Mathlib.Tactic.FieldSimp
import Mathlib.Tactic.Linarith
import Mathlib.Tactic.NormNum
import Mathlib.Tactic.Positivity
import Mathlib.Tactic.Ring

namespace Descent.Decimal

-- What the bits of a double stand for, its sign apart: the exponent lies over 52 bits of the
-- significand, and a bit in front of them is understood unless the exponent is zero. There is no
-- end to the exponents here, so that the bits of infinity stand for the number behind the largest
-- double.
def valueOfBits (bits : ℕ) : ℚ :=
  if bits < 2 ^ 52 then bits * 2 ^ (-1074 : ℤ)
  else ((2 ^ 52 + bits % 2 ^ 52 : ℕ) : ℚ) * 2 ^ ((bits / 2 ^ 52 : ℕ) - 1075 : ℤ)

def infiniteBits : ℕ := 2047 * 2 ^ 52

-- A distance counts for less than another: it is smaller, or it is the same and the bits are even.
def Prefers (bits : ℕ) (distance other : ℚ) : Prop :=
  distance < other ∨ distance = other ∧ Even bits

-- The double with these bits is the nearest to a number, or the even one of two that are as near.
def IsNearest (x : ℚ) (bits : ℕ) : Prop :=
  bits ≤ infiniteBits ∧ ∀ other ≤ infiniteBits, other ≠ bits →
    Prefers bits |x - valueOfBits bits| |x - valueOfBits other|

-- The double is what a number of that sign and size is rounded to.
def Rounds (negative : Bool) (x : ℚ) (double : Float) : Prop :=
  ∃ bits, IsNearest x bits ∧
    double = Float.ofBits (UInt64.ofNat (bits + if negative then 2 ^ 63 else 0))

section Bits

variable {bits exponent significand : ℕ}

-- A significand of 53 bits may be written over the exponent below its own, and it may have
-- overflowed.
theorem valueOfBits_add (hle : significand ≤ 2 ^ 53)
    (hnormal : exponent = 0 ∨ 2 ^ 52 ≤ significand) :
    valueOfBits (exponent * 2 ^ 52 + significand) = significand * 2 ^ (exponent - 1074 : ℤ) := by
  by_cases hsmall : significand < 2 ^ 52
  · have hzero : exponent = 0 := by omega
    rw [hzero, Nat.zero_mul, Nat.zero_add, valueOfBits, if_pos hsmall, Nat.cast_zero, zero_sub]
  by_cases hcarry : significand = 2 ^ 53
  · have hbits : exponent * 2 ^ 52 + significand = (exponent + 2) * 2 ^ 52 := by omega
    have hlarge : ¬(exponent + 2) * 2 ^ 52 < 2 ^ 52 := by omega
    rw [hbits, valueOfBits, if_neg hlarge, Nat.mul_mod_left, Nat.mul_div_cancel _ (by norm_num),
      hcarry]
    have hexponent : ((exponent + 2 : ℕ) : ℤ) - 1075 = (exponent - 1074 : ℤ) + 1 := by
      push_cast
      ring
    rw [hexponent, zpow_add_one₀ two_ne_zero]
    push_cast
    ring
  · have hlarge : ¬exponent * 2 ^ 52 + significand < 2 ^ 52 := by omega
    have hdiv : (exponent * 2 ^ 52 + significand) / 2 ^ 52 = exponent + 1 := by omega
    have hmod : 2 ^ 52 + (exponent * 2 ^ 52 + significand) % 2 ^ 52 = significand := by omega
    rw [valueOfBits, if_neg hlarge, hdiv, hmod]
    have hexponent : ((exponent + 1 : ℕ) : ℤ) - 1075 = (exponent - 1074 : ℤ) := by
      push_cast
      ring
    rw [hexponent]

theorem exists_exponent_significand (bits : ℕ) :
    ∃ exponent significand, bits = exponent * 2 ^ 52 + significand ∧ significand < 2 ^ 53 ∧
      (exponent = 0 ∨ 2 ^ 52 ≤ significand) := by
  by_cases hsmall : bits < 2 ^ 52
  · exact ⟨0, bits, by omega, by omega, .inl rfl⟩
  · exact ⟨bits / 2 ^ 52 - 1, 2 ^ 52 + bits % 2 ^ 52, by omega, by omega, .inr (by omega)⟩

-- Larger bits stand for larger numbers.
theorem valueOfBits_strictMono : StrictMono valueOfBits := by
  refine strictMono_nat_of_lt_succ fun bits => ?_
  obtain ⟨exponent, significand, rfl, hlt, hnormal⟩ := exists_exponent_significand bits
  have hpos : (0 : ℚ) < 2 ^ (exponent - 1074 : ℤ) := zpow_pos two_pos _
  have hnext : exponent = 0 ∨ 2 ^ 52 ≤ significand + 1 := by omega
  rw [Nat.add_assoc, valueOfBits_add (by omega) hnormal, valueOfBits_add (by omega) hnext]
  push_cast
  linarith

theorem valueOfBits_zero : valueOfBits 0 = 0 := by simp [valueOfBits]

theorem valueOfBits_infiniteBits : valueOfBits infiniteBits = 2 ^ (1024 : ℤ) := by
  have hbits : infiniteBits = 2045 * 2 ^ 52 + 2 ^ 53 := by norm_num [infiniteBits]
  rw [hbits, valueOfBits_add (le_refl _) (.inr (by norm_num))]
  have hexponent : (1024 : ℤ) = ((2045 : ℕ) - 1074 : ℤ) + 53 := by norm_num
  rw [hexponent, zpow_add₀ two_ne_zero, mul_comm]
  norm_num

end Bits

section Nearest

variable {x : ℚ} {bits other : ℕ}

theorem Prefers.le {distance further : ℚ} (h : Prefers bits distance further) :
    distance ≤ further := by
  rcases h with hlt | ⟨heq, -⟩
  · exact hlt.le
  · exact heq.le

-- Distances are compared as before in another unit, and an even number does not change what is even.
theorem prefers_scaled_iff {even : ℕ} (heven : Even even) {unit distance further : ℚ}
    (hunit : 0 < unit) :
    Prefers (even + bits) (distance * unit) (further * unit) ↔ Prefers bits distance further := by
  rw [Prefers, Prefers, mul_lt_mul_iff_left₀ hunit, mul_left_inj' hunit.ne', Nat.even_add]
  simp only [heven, true_iff]

-- Of the doubles on either side of a number the nearer one is nearest of all, and the even one if
-- they are as near: all others are farther away than the one on their side.
theorem isNearest_of_between (hx : valueOfBits bits ≤ x) (hy : x ≤ valueOfBits (bits + 1))
    (hle : bits + 1 ≤ infiniteBits) :
    (Prefers bits (x - valueOfBits bits) (valueOfBits (bits + 1) - x) → IsNearest x bits) ∧
      (Prefers (bits + 1) (valueOfBits (bits + 1) - x) (x - valueOfBits bits) →
        IsNearest x (bits + 1)) := by
  have hlow : |x - valueOfBits bits| = x - valueOfBits bits := abs_of_nonneg (by linarith)
  have hhigh : |x - valueOfBits (bits + 1)| = valueOfBits (bits + 1) - x := by
    rw [abs_sub_comm]
    exact abs_of_nonneg (by linarith)
  have hbelow : ∀ other < bits, x - valueOfBits bits < |x - valueOfBits other| := by
    intro other hlt
    have hmono := valueOfBits_strictMono hlt
    rw [abs_of_nonneg (by linarith)]
    linarith
  have habove : ∀ other, bits + 1 < other → valueOfBits (bits + 1) - x < |x - valueOfBits other| := by
    intro other hlt
    have hmono := valueOfBits_strictMono hlt
    rw [abs_sub_comm, abs_of_nonneg (by linarith)]
    linarith
  constructor
  · intro hnear
    refine ⟨by omega, fun other _ hne => ?_⟩
    rw [hlow]
    rcases Nat.lt_trichotomy other (bits + 1) with hlt | rfl | hlt
    · exact .inl (hbelow other (by omega))
    · rwa [hhigh]
    · exact .inl (lt_of_le_of_lt hnear.le (habove other hlt))
  · intro hnear
    refine ⟨hle, fun other _ hne => ?_⟩
    rw [hhigh]
    rcases Nat.lt_trichotomy other bits with hlt | rfl | hlt
    · exact .inl (lt_of_le_of_lt hnear.le (hbelow other hlt))
    · rwa [hlow]
    · exact .inl (habove other (by omega))

theorem isNearest_infiniteBits (hx : valueOfBits infiniteBits ≤ x) : IsNearest x infiniteBits := by
  refine ⟨le_refl _, fun other hle hne => .inl ?_⟩
  have hmono := valueOfBits_strictMono (lt_of_le_of_ne hle hne)
  rw [abs_of_nonneg (by linarith), abs_of_nonneg (by linarith)]
  linarith

-- There is only one nearest double: two that are as near are both even, and what stands for the
-- odd bits between them is nearer.
theorem IsNearest.unique (h : IsNearest x bits) (hother : IsNearest x other) : bits = other := by
  wlog hle : bits ≤ other generalizing bits other
  · exact (this hother h (by omega)).symm
  by_contra hne
  have hfirst := h.2 other hother.1 (Ne.symm hne)
  have hsecond := hother.2 bits h.1 hne
  obtain ⟨hsame, heven⟩ := hfirst.resolve_left (not_lt.mpr hsecond.le)
  obtain ⟨-, hevenOther⟩ := hsecond.resolve_left (not_lt.mpr hfirst.le)
  have hodd : bits + 1 ≠ other := by
    rintro rfl
    exact Nat.not_even_iff_odd.mpr heven.add_one hevenOther
  have hlow := valueOfBits_strictMono (Nat.lt_succ_self bits)
  have hhigh : valueOfBits (bits + 1) < valueOfBits other := valueOfBits_strictMono (by omega)
  have hbetween := h.2 (bits + 1) (by have := hother.1; omega) (Nat.succ_ne_self bits)
  have hcentre : x - valueOfBits bits = -(x - valueOfBits other) :=
    (abs_eq_abs.mp hsame).resolve_left fun h => by linarith
  have hmiddle : |x - valueOfBits (bits + 1)| < |x - valueOfBits bits| := by
    rw [abs_of_nonneg (by linarith : 0 ≤ x - valueOfBits bits), abs_lt]
    constructor <;> linarith
  exact not_lt.mpr hbetween.le hmiddle

-- A number between two neighbours has its nearest double, unless they lie beyond infinity.
theorem isNearest_min {nearest : ℕ} (hx : valueOfBits bits ≤ x) (hy : x ≤ valueOfBits (bits + 1))
    (hnearest :
      nearest = bits ∧ Prefers bits (x - valueOfBits bits) (valueOfBits (bits + 1) - x) ∨
      nearest = bits + 1 ∧
        Prefers (bits + 1) (valueOfBits (bits + 1) - x) (x - valueOfBits bits)) :
    IsNearest x (min nearest infiniteBits) := by
  by_cases hle : bits + 1 ≤ infiniteBits
  · obtain ⟨hlow, hhigh⟩ := isNearest_of_between hx hy hle
    rcases hnearest with ⟨rfl, h⟩ | ⟨rfl, h⟩
    · rw [min_eq_left (by omega)]
      exact hlow h
    · rw [min_eq_left hle]
      exact hhigh h
  · have hmono := valueOfBits_strictMono.monotone (show infiniteBits ≤ bits by omega)
    rw [min_eq_right (by omega)]
    exact isNearest_infiniteBits (by linarith)

end Nearest

section Division

variable (num : ℕ) {den : ℕ}

theorem div_sub_eq (hden : 0 < den) :
    (num / den : ℚ) - (num / den : ℕ) = (num % den : ℕ) / den := by
  have hne : (den : ℚ) ≠ 0 := by positivity
  have hnum : (num : ℚ) = den * (num / den : ℕ) + (num % den : ℕ) := by
    exact_mod_cast (Nat.div_add_mod num den).symm
  field_simp
  linarith

-- The quotient of two numbers lies between its integer part and the next integer.
theorem natDiv_le_div (hden : 0 < den) : ((num / den : ℕ) : ℚ) ≤ num / den := by
  have hnonneg : (0 : ℚ) ≤ (num % den : ℕ) / den := by positivity
  linarith [div_sub_eq num hden]

theorem div_lt_natDiv_add_one (hden : 0 < den) : (num / den : ℚ) < (num / den : ℕ) + 1 := by
  have hlt : ((num % den : ℕ) : ℚ) / den < 1 := by
    rw [div_lt_one (by positivity)]
    exact_mod_cast Nat.mod_lt num hden
  linarith [div_sub_eq num hden]

-- The quotient is rounded to the nearer of the two, or to the even one.
theorem roundDiv_cases (hden : 0 < den) :
    let x : ℚ := num / den
    let below := num / den
    roundDiv num den = below ∧ Prefers below (x - below) (below + 1 - x) ∨
      roundDiv num den = below + 1 ∧ Prefers (below + 1) (below + 1 - x) (x - below) := by
  intro x below
  have hpos : (0 : ℚ) < den := by positivity
  have hpart : 2 * (x - below) * den = (2 * (num % den) : ℕ) := by
    rw [div_sub_eq num hden, mul_assoc, div_mul_cancel₀ _ hpos.ne']
    push_cast
    rfl
  have hlt : x - below < below + 1 - x ↔ 2 * (num % den) < den := by
    rw [← Nat.cast_lt (α := ℚ), ← hpart, mul_lt_iff_lt_one_left hpos]
    constructor <;> intro h <;> linarith
  have heq : x - below = below + 1 - x ↔ 2 * (num % den) = den := by
    rw [← Nat.cast_inj (R := ℚ), ← hpart, mul_eq_right₀ hpos.ne']
    constructor <;> intro h <;> linarith
  rw [roundDiv]
  by_cases hbelow : 2 * (num % den) < den
  · exact .inl ⟨if_pos (by simp [hbelow]), .inl (hlt.mpr hbelow)⟩
  by_cases htie : 2 * (num % den) = den
  · have hsame := heq.mpr htie
    rcases Nat.mod_two_eq_zero_or_one below with heven | hodd
    · exact .inl ⟨if_pos (by simp [htie, heven, below]), .inr ⟨hsame, Nat.even_iff.mpr heven⟩⟩
    · have hnot : ¬num / den % 2 = 0 := by omega
      refine .inr ⟨if_neg (by simp [htie, hnot]), .inr ⟨hsame.symm, ?_⟩⟩
      exact (Nat.odd_iff.mpr hodd).add_one
  · refine .inr ⟨if_neg (by simp [hbelow, htie]), .inl ?_⟩
    have hne := mt heq.mp htie
    have hnlt := mt hlt.mp hbelow
    exact lt_of_le_of_ne (not_lt.mp hnlt) (Ne.symm hne)

-- A power with an exponent of either sign as a quotient.
theorem pow_toNat_div (base : ℚ) (exponent : ℤ) :
    base ^ exponent.toNat / base ^ (-exponent).toNat = base ^ exponent := by
  obtain ⟨n, rfl | rfl⟩ := exponent.eq_nat_or_neg
  · simp
  · simp

theorem scaled_eq (num den : ℕ) (exponent : ℤ) :
    ((num * Nat.pow 2 (-exponent).toNat : ℕ) : ℚ) / (den * Nat.pow 2 exponent.toNat : ℕ) =
      num / den / 2 ^ exponent := by
  have hpower := pow_toNat_div 2 (-exponent)
  rw [neg_neg] at hpower
  simp only [Nat.pow_eq]
  push_cast
  rw [mul_div_mul_comm, hpower, zpow_neg, div_eq_mul_inv (num / den : ℚ)]

end Division

section Exponents

variable {num den : ℕ}

-- The lengths of two numbers tell that of their quotient, but for one bit.
theorem quotient_bounds (hnum : 0 < num) (hden : 0 < den) :
    (2 : ℚ) ^ ((num.log2 : ℤ) - den.log2 - 1) < num / den ∧
      (num / den : ℚ) < 2 ^ ((num.log2 : ℤ) - den.log2 + 1) := by
  have hpos : (0 : ℚ) < den := by positivity
  have hnumLow : (2 : ℚ) ^ (num.log2 : ℤ) ≤ num := by
    exact_mod_cast Nat.log2_self_le hnum.ne'
  have hnumHigh : (num : ℚ) < 2 ^ (num.log2 + 1 : ℤ) := by
    exact_mod_cast Nat.lt_log2_self
  have hdenLow : (2 : ℚ) ^ (den.log2 : ℤ) ≤ den := by
    exact_mod_cast Nat.log2_self_le hden.ne'
  have hdenHigh : (den : ℚ) < 2 ^ (den.log2 + 1 : ℤ) := by
    exact_mod_cast Nat.lt_log2_self
  constructor
  · rw [lt_div_iff₀ hpos]
    calc (2 : ℚ) ^ ((num.log2 : ℤ) - den.log2 - 1) * den
      _ < 2 ^ ((num.log2 : ℤ) - den.log2 - 1) * 2 ^ (den.log2 + 1 : ℤ) := by gcongr
      _ = 2 ^ (num.log2 : ℤ) := by
        rw [← zpow_add₀ two_ne_zero]
        ring_nf
      _ ≤ num := hnumLow
  · rw [div_lt_iff₀ hpos]
    calc (num : ℚ)
      _ < 2 ^ (num.log2 + 1 : ℤ) := hnumHigh
      _ = 2 ^ ((num.log2 : ℤ) - den.log2 + 1) * 2 ^ (den.log2 : ℤ) := by
        rw [← zpow_add₀ two_ne_zero]
        ring_nf
      _ ≤ 2 ^ ((num.log2 : ℤ) - den.log2 + 1) * den := by gcongr

-- The exponent over which a quotient has a significand of 53 bits.
theorem exists_exponentOf_eq (hnum : 0 < num) (hden : 0 < den) :
    ∃ exponent, exponentOf num den = max exponent (-1074) ∧
      (2 ^ 52 : ℚ) ≤ num / den / 2 ^ exponent ∧ (num / den / 2 ^ exponent : ℚ) < 2 ^ 53 := by
  let estimate : ℤ := num.log2 - den.log2 - 52
  let significand := num * Nat.pow 2 (-estimate).toNat / (den * Nat.pow 2 estimate.toNat)
  have hdenominator : 0 < den * Nat.pow 2 estimate.toNat :=
    Nat.mul_pos hden (Nat.pow_pos (by norm_num))
  have hpos : (0 : ℚ) < 2 ^ estimate := zpow_pos two_pos _
  obtain ⟨hlow, hhigh⟩ := quotient_bounds hnum hden
  have hlower : (2 ^ 51 : ℚ) < num / den / 2 ^ estimate := by
    rw [lt_div_iff₀ hpos]
    calc (2 ^ 51 : ℚ) * 2 ^ estimate
      _ = 2 ^ ((num.log2 : ℤ) - den.log2 - 1) := by
        rw [← zpow_natCast, ← zpow_add₀ two_ne_zero]
        congr 1
        simp only [estimate, Nat.cast_ofNat]
        ring
      _ < num / den := hlow
  have hupper : (num / den / 2 ^ estimate : ℚ) < 2 ^ 53 := by
    rw [div_lt_iff₀ hpos]
    calc (num / den : ℚ)
      _ < 2 ^ ((num.log2 : ℤ) - den.log2 + 1) := hhigh
      _ = 2 ^ 53 * 2 ^ estimate := by
        rw [← zpow_natCast, ← zpow_add₀ two_ne_zero]
        congr 1
        simp only [estimate, Nat.cast_ofNat]
        ring
  have hfloor := natDiv_le_div (num * Nat.pow 2 (-estimate).toNat) hdenominator
  have hceil := div_lt_natDiv_add_one (num * Nat.pow 2 (-estimate).toNat) hdenominator
  rw [scaled_eq] at hfloor hceil
  by_cases hsmall : significand < Nat.pow 2 52
  · have hcast : (significand : ℚ) + 1 ≤ 2 ^ 52 := by exact_mod_cast hsmall
    have hhalf : (num / den / 2 ^ (estimate - 1) : ℚ) = 2 * (num / den / 2 ^ estimate) := by
      rw [zpow_sub_one₀ two_ne_zero, ← div_div, div_inv_eq_mul, mul_comm]
    refine ⟨estimate - 1, congrArg (max · (-1074)) (if_pos hsmall), ?_, ?_⟩
    · rw [hhalf]
      linarith
    · rw [hhalf]
      linarith
  · have hcast : (2 ^ 52 : ℚ) ≤ significand := by exact_mod_cast not_lt.mp hsmall
    exact ⟨estimate, congrArg (max · (-1074)) (if_neg hsmall), by linarith, hupper⟩

-- Over the exponent that is chosen there are no more than 53 bits, and no fewer unless it is the
-- smallest.
theorem exponentOf_spec (hnum : 0 < num) (hden : 0 < den) :
    -1074 ≤ exponentOf num den ∧ (num / den / 2 ^ exponentOf num den : ℚ) < 2 ^ 53 ∧
      (exponentOf num den = -1074 ∨ (2 ^ 52 : ℚ) ≤ num / den / 2 ^ exponentOf num den) := by
  obtain ⟨exponent, heq, hlow, hhigh⟩ := exists_exponentOf_eq hnum hden
  rw [heq]
  by_cases hsmall : exponent ≤ -1074
  · rw [max_eq_right hsmall]
    have hpower : (2 : ℚ) ^ exponent ≤ 2 ^ (-1074 : ℤ) := zpow_le_zpow_right₀ one_le_two hsmall
    have hle : (num / den / 2 ^ (-1074 : ℤ) : ℚ) ≤ num / den / 2 ^ exponent := by gcongr
    exact ⟨le_refl _, lt_of_le_of_lt hle hhigh, .inl rfl⟩
  · rw [max_eq_left (by omega)]
    exact ⟨by omega, hhigh, .inr hlow⟩

-- A quotient that fits into 53 bits is rounded to the nearest double over a given exponent.
theorem isNearest_roundDiv {biased : ℕ} (hden : 0 < den) (hhigh : (num / den : ℚ) < 2 ^ 53)
    (hlow : biased = 0 ∨ (2 ^ 52 : ℚ) ≤ num / den) :
    IsNearest (num / den * 2 ^ (biased - 1074 : ℤ))
      (min (biased * 2 ^ 52 + roundDiv num den) infiniteBits) := by
  let below := num / den
  have hfloor := natDiv_le_div num hden
  have hceil := div_lt_natDiv_add_one num hden
  have hbits : below < 2 ^ 53 := by
    have hlt : (below : ℚ) < 2 ^ 53 := lt_of_le_of_lt hfloor hhigh
    exact_mod_cast hlt
  have hnormal : biased = 0 ∨ 2 ^ 52 ≤ below := by
    refine hlow.imp_right fun hle => ?_
    have hlt : (2 ^ 52 : ℚ) < below + 1 := lt_of_le_of_lt hle hceil
    exact Nat.le_of_lt_succ (by exact_mod_cast hlt)
  have hpos : (0 : ℚ) < 2 ^ (biased - 1074 : ℤ) := zpow_pos two_pos _
  have hvalue := valueOfBits_add hbits.le hnormal
  have hnext : valueOfBits (biased * 2 ^ 52 + below + 1) =
      (below + 1) * 2 ^ (biased - 1074 : ℤ) := by
    rw [Nat.add_assoc, valueOfBits_add (by omega) (by omega), Nat.cast_succ]
  have heven : Even (biased * 2 ^ 52) := (even_two.pow_of_ne_zero (by norm_num)).mul_left _
  have hbelow : valueOfBits (biased * 2 ^ 52 + below) ≤ num / den * 2 ^ (biased - 1074 : ℤ) := by
    rw [hvalue]
    gcongr
  have habove : num / den * 2 ^ (biased - 1074 : ℤ) ≤
      valueOfBits (biased * 2 ^ 52 + below + 1) := by
    rw [hnext]
    gcongr
  refine isNearest_min hbelow habove ?_
  rw [hvalue, hnext, ← sub_mul, ← sub_mul, Nat.add_assoc, prefers_scaled_iff heven hpos,
    prefers_scaled_iff heven hpos]
  refine (roundDiv_cases num hden).imp ?_ ?_
  · rintro ⟨hround, h⟩
    exact ⟨congrArg _ hround, h⟩
  · rintro ⟨hround, h⟩
    exact ⟨congrArg _ hround, h⟩

theorem isNearest_nearestBits (hnum : 0 < num) (hden : 0 < den) :
    IsNearest (num / den) (nearestBits num den) := by
  obtain ⟨hsmallest, hhigh, hlow⟩ := exponentOf_spec hnum hden
  let exponent := exponentOf num den
  let biased := (exponent + 1074).toNat
  have hbiased : (biased : ℤ) - 1074 = exponent := by omega
  have hpos : (0 : ℚ) < 2 ^ exponent := zpow_pos two_pos _
  have hdenominator : 0 < den * Nat.pow 2 exponent.toNat :=
    Nat.mul_pos hden (Nat.pow_pos (by norm_num))
  have hnormal : biased = 0 ∨ (2 ^ 52 : ℚ) ≤ num / den / 2 ^ exponent :=
    hlow.imp_left fun h => by omega
  rw [← scaled_eq] at hhigh hnormal
  have hnearest := isNearest_roundDiv hdenominator hhigh hnormal
  rw [scaled_eq, hbiased, div_mul_cancel₀ _ hpos.ne'] at hnearest
  exact hnearest

end Exponents

section Doubles

variable {negative : Bool} {x y : ℚ} {double other : Float} {bits : ℕ}

theorem Rounds.unique (h : Rounds negative x double) (hother : Rounds negative x other) :
    double = other := by
  obtain ⟨bits, hnearest, rfl⟩ := h
  obtain ⟨_, hnearestOther, rfl⟩ := hother
  rw [hnearest.unique hnearestOther]

theorem Rounds.of_isNearest (h : Rounds negative x double) (hx : IsNearest x bits)
    (hy : IsNearest y bits) : Rounds negative y double := by
  obtain ⟨_, hnearest, rfl⟩ := h
  obtain rfl := hnearest.unique hx
  exact ⟨_, hy, rfl⟩

-- What is no farther from zero than from the smallest double is rounded to zero.
theorem isNearest_zero (hnonneg : 0 ≤ x) (hx : x ≤ 2 ^ (-1075 : ℤ)) : IsNearest x 0 := by
  have hone : valueOfBits (0 + 1) = 2 * 2 ^ (-1075 : ℤ) := by
    have hexponent : (-1074 : ℤ) = -1075 + 1 := by norm_num
    rw [valueOfBits, if_pos (by norm_num), hexponent, zpow_add_one₀ two_ne_zero, zero_add,
      Nat.cast_one, one_mul, mul_comm]
  have hlow : valueOfBits 0 ≤ x := by rwa [valueOfBits_zero]
  have hhigh : x ≤ valueOfBits (0 + 1) := by
    rw [hone]
    linarith
  refine (isNearest_of_between hlow hhigh (by norm_num [infiniteBits])).1 ?_
  rw [hone, valueOfBits_zero]
  rcases lt_or_eq_of_le hx with hlt | heq
  · left
    linarith
  · right
    exact ⟨by linarith, Even.zero⟩

theorem nearest_rounds (negative : Bool) (num : ℕ) {den : ℕ} (hden : 0 < den) :
    Rounds negative (num / den) (nearest negative num den) := by
  by_cases hzero : num = 0
  · refine ⟨0, ?_, by simp [nearest, hzero]⟩
    rw [hzero, Nat.cast_zero, zero_div]
    exact isNearest_zero (le_refl _) (by positivity)
  · exact ⟨nearestBits num den, isNearest_nearestBits (by omega) hden, by simp [nearest, hzero]⟩

-- Ten lies between the third and the fourth power of two, and so do their powers.
theorem two_zpow_le_ten_zpow {exponent : ℤ} (h : 0 ≤ exponent) :
    (2 : ℚ) ^ (3 * exponent) ≤ 10 ^ exponent := by
  rw [zpow_mul]
  exact zpow_le_zpow_left₀ h (by norm_num) (by norm_num)

theorem ten_zpow_bounds {exponent : ℤ} (h : exponent ≤ 0) :
    (2 : ℚ) ^ (4 * exponent) ≤ 10 ^ exponent ∧ (10 : ℚ) ^ exponent ≤ 2 ^ (3 * exponent) := by
  obtain ⟨n, hn⟩ := Int.eq_ofNat_of_zero_le (neg_nonneg.mpr h)
  obtain rfl : exponent = -n := by omega
  have hanti {a b : ℚ} (ha : 0 < a) (hab : a ≤ b) : b ^ (-n : ℤ) ≤ a ^ (-n : ℤ) := by
    rw [zpow_neg, zpow_neg, zpow_natCast, zpow_natCast]
    exact inv_anti₀ (pow_pos ha n) (pow_le_pow_left₀ ha.le hab n)
  rw [zpow_mul, zpow_mul]
  exact ⟨hanti (by norm_num) (by norm_num), hanti (by norm_num) (by norm_num)⟩

section Scaled

variable {digits : ℕ} {exponent : ℤ}

-- So few digits under so small a power that only zero is as near.
theorem scaled_le_of_small (h : (digits.log2 : ℤ) / 3 + exponent < -400) :
    (digits * 10 ^ exponent : ℚ) ≤ 2 ^ (-1075 : ℤ) := by
  have hdigits : (digits : ℚ) < 2 ^ (digits.log2 + 1 : ℤ) := by exact_mod_cast Nat.lt_log2_self
  have hpower := (ten_zpow_bounds (show exponent ≤ 0 by omega)).2
  calc (digits * 10 ^ exponent : ℚ)
    _ ≤ 2 ^ (digits.log2 + 1 : ℤ) * 2 ^ (3 * exponent) := by gcongr
    _ = 2 ^ (digits.log2 + 1 + 3 * exponent : ℤ) := (zpow_add₀ two_ne_zero _ _).symm
    _ ≤ 2 ^ (-1075 : ℤ) := zpow_le_zpow_right₀ one_le_two (by omega)

-- So many digits or so large a power that no double is as large.
theorem le_scaled_of_large (hne : digits ≠ 0) (h : 400 < (digits.log2 : ℤ) / 4 + exponent) :
    (2 : ℚ) ^ (1024 : ℤ) ≤ digits * 10 ^ exponent := by
  have hdigits : (2 : ℚ) ^ (digits.log2 : ℤ) ≤ digits := by
    exact_mod_cast Nat.log2_self_le hne
  obtain ⟨factor, hpower, hfactor⟩ : ∃ factor : ℤ, (2 : ℚ) ^ (factor * exponent) ≤ 10 ^ exponent ∧
      1024 ≤ digits.log2 + factor * exponent := by
    rcases le_or_gt 0 exponent with hle | hlt
    · exact ⟨3, two_zpow_le_ten_zpow hle, by omega⟩
    · exact ⟨4, (ten_zpow_bounds hlt.le).1, by omega⟩
  calc (2 : ℚ) ^ (1024 : ℤ)
    _ ≤ 2 ^ (digits.log2 + factor * exponent : ℤ) := zpow_le_zpow_right₀ one_le_two hfactor
    _ = 2 ^ (digits.log2 : ℤ) * 2 ^ (factor * exponent) := zpow_add₀ two_ne_zero _ _
    _ ≤ digits * 10 ^ exponent := by gcongr

-- Digits with a power of ten are rounded as they should, also where they are not multiplied out.
theorem ofScaled_rounds (negative : Bool) (digits : ℕ) (exponent : ℤ) :
    Rounds negative (digits * 10 ^ exponent) (ofScaled negative digits exponent) := by
  have hnonneg : (0 : ℚ) ≤ digits * 10 ^ exponent := by positivity
  rw [ofScaled]
  by_cases htiny : digits = 0 ∨ (digits.log2 : ℤ) / 3 + exponent < -400
  · have hle : (digits * 10 ^ exponent : ℚ) ≤ 2 ^ (-1075 : ℤ) := by
      rcases htiny with rfl | hsmall
      · simp
      · exact scaled_le_of_small hsmall
    have hzero := nearest_rounds negative 0 Nat.one_pos
    rw [Nat.cast_zero, zero_div] at hzero
    rw [if_pos (by simpa using htiny)]
    exact hzero.of_isNearest (isNearest_zero (le_refl 0) (by positivity))
      (isNearest_zero hnonneg hle)
  obtain ⟨hne, hsmall⟩ := not_or.mp htiny
  rw [if_neg (by simpa using htiny)]
  by_cases hlarge : 400 < (digits.log2 : ℤ) / 4 + exponent
  · rw [if_pos hlarge]
    generalize hlimit : 1024 = limit
    have hbeyond := nearest_rounds negative (Nat.pow 2 limit) Nat.one_pos
    refine hbeyond.of_isNearest (isNearest_infiniteBits ?_) (isNearest_infiniteBits ?_)
    · have hpower : ((Nat.pow 2 limit : ℕ) : ℚ) = 2 ^ (limit : ℤ) := by
        rw [Nat.pow_eq, Nat.cast_pow, Nat.cast_ofNat, zpow_natCast]
      rw [valueOfBits_infiniteBits, hpower, Nat.cast_one, div_one, ← hlimit, Nat.cast_ofNat]
    · rw [valueOfBits_infiniteBits]
      exact le_scaled_of_large hne hlarge
  · have hden : 0 < Nat.pow 10 (-exponent).toNat := Nat.pow_pos (by norm_num)
    have hquotient : (digits * 10 ^ exponent : ℚ) =
        (digits * Nat.pow 10 exponent.toNat : ℕ) / (Nat.pow 10 (-exponent).toNat : ℕ) := by
      simp only [Nat.pow_eq]
      push_cast
      rw [mul_div_assoc, pow_toNat_div]
    rw [if_neg hlarge, hquotient]
    exact nearest_rounds negative _ hden

end Scaled

end Doubles

end Descent.Decimal
