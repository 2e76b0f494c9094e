namespace Descent.Decimal

-- What a double stands for.
inductive Parts where
  | nan
  | infinite (negative : Bool)
  | zero (negative : Bool)
  -- the significand times two to the exponent; `narrow` when the next smaller double is only half
  -- as far away as the next larger one
  | finite (negative : Bool) (significand : Nat) (exponent : Int) (narrow : Bool)

def Parts.ofFloat (x : Float) : Parts :=
  let bits := x.toBits.toNat
  let negative : Bool := Nat.pow 2 63 ≤ bits
  let biased : Nat := bits / Nat.pow 2 52 % 2048
  let fraction := bits % Nat.pow 2 52
  if biased = 2047 then
    if fraction = 0 then .infinite negative else .nan
  else if biased = 0 then
    if fraction = 0 then .zero negative else .finite negative fraction (-1074) false
  else
    .finite negative (Nat.pow 2 52 + fraction) ((biased : Int) - 1075) (fraction = 0 && 1 < biased)

-- `digits` times ten to the exponent.
structure Scaled where
  digits : Nat
  exponent : Int
  deriving Repr

-- The point of the grid of multiples of ten to `exponent` that reads back as the double and lies
-- nearest to it, the upper one of two that are as near. The doubles around it are half a unit of
-- the significand away, and the ends of that interval read back when the significand is even.
def onGrid? (significand : Nat) (binary : Int) (narrow : Bool) (exponent : Int) : Option Scaled :=
  let unit := Nat.pow 2 (binary - 2).toNat * Nat.pow 10 (-exponent).toNat
  let step := Nat.pow 2 (2 - binary).toNat * Nat.pow 10 exponent.toNat
  let value := 4 * significand * unit
  let low := (4 * significand - if narrow then 1 else 2) * unit
  let high := (4 * significand + 2) * unit
  let below := value / step
  let readsBack (d : Nat) : Bool :=
    if significand % 2 = 0 then low ≤ d * step && d * step ≤ high
    else low < d * step && d * step < high
  let belowIsNearer := value - below * step < (below + 1) * step - value
  if readsBack below && (!readsBack (below + 1) || belowIsNearer) then some ⟨below, exponent⟩
  else if readsBack (below + 1) then some ⟨below + 1, exponent⟩
  else none

-- The first grid with a point that reads back, from a coarse grid down.
def firstGrid (significand : Nat) (binary : Int) (narrow : Bool) : Nat → Int → Scaled
  | 0, exponent => ⟨significand, exponent⟩
  | fuel + 1, exponent =>
    match onGrid? significand binary narrow exponent with
    | some found => found
    | none => firstGrid significand binary narrow fuel (exponent - 1)

-- The decimal with the fewest digits that reads back as the double, of those the nearest to it.
-- The search starts at a power of ten above the value; seventeen digits always read back.
def shortest (significand : Nat) (binary : Int) (narrow : Bool) : Scaled :=
  firstGrid significand binary narrow 24 ((binary + significand.log2 + 1) * 30103 / 100000 + 1)

-- How a format writes a finite number.
structure Layout where
  -- the least number of digits behind the point
  decimals : Nat
  -- whether a number whose first digit stands at this power of ten is written with an exponent
  scientific : Int → Bool

def positional (layout : Layout) (digits : List Char) (exponent : Int) : List Char :=
  let point : Int := digits.length + exponent
  let whole :=
    if point ≤ 0 then ['0'] else digits.take point.toNat ++ List.replicate exponent.toNat '0'
  let fraction :=
    if point ≤ 0 then List.replicate (-point).toNat '0' ++ digits else digits.drop point.toNat
  let fraction := fraction ++ List.replicate (layout.decimals - fraction.length) '0'
  if fraction.isEmpty then whole else whole ++ '.' :: fraction

def withExponent (digits : List Char) (exponent : Int) : List Char :=
  let fraction := digits.drop 1
  digits.take 1 ++ (if fraction.isEmpty then [] else '.' :: fraction) ++
    'e' :: (toString ((digits.length : Int) - 1 + exponent)).toList

def Layout.write (layout : Layout) (x : Float) : String :=
  let signed (negative : Bool) (text : List Char) :=
    String.ofList (if negative then '-' :: text else text)
  match Parts.ofFloat x with
  | .nan => "NaN"
  | .infinite negative => signed negative "inf".toList
  | .zero negative => signed negative (positional layout ['0'] 0)
  | .finite negative significand binary narrow =>
    let found := shortest significand binary narrow
    let digits := Nat.toDigits 10 found.digits
    signed negative <|
      if layout.scientific ((digits.length : Int) - 1 + found.exponent) then
        withExponent digits found.exponent
      else positional layout digits found.exponent

-- Digits alone, however large or small the number.
def plain : Layout := ⟨0, fun _ => false⟩

-- Always with a decimal, and with an exponent below 10^-4 and from 10^16 on.
def tagged : Layout := ⟨1, fun power => power < -4 || 16 ≤ power⟩

end Descent.Decimal
