import BinaryGrammar.Number.Binary64

/-!
# Shortest decimals

The text of a floating-point number has the fewest digits that read back as the same number, and of
the decimals with that many digits the nearest one. A `FloatLayout` decides the rest: which way a
tie goes, which numbers are written with an exponent, and how special values are spelt.
-/

set_option autoImplicit false

namespace BinaryGrammar

/-- A decimal: `digits` times ten to the power `exponent`. -/
structure Decimal where
  digits : Nat
  exponent : Int
  deriving DecidableEq, Repr

namespace Shortest

/-- The rational numbers that round to a finite number, in units of a quarter of its last place. -/
structure Interval where
  low : Nat
  value : Nat
  high : Nat
  /-- Whether the ends round to the number as well. -/
  closed : Bool
  /-- The unit is two to this power. -/
  unit : Int

/-- The interval of a finite number that is not zero. Below a power of two the neighbour is
nearer. -/
def intervalOf (x : Binary64) : Interval :=
  let m := x.significand
  let nearer := m = Binary64.leadingBit ∧ x.exponent ≠ -1074
  { low := if nearer then 4 * m - 1 else 4 * m - 2
    value := 4 * m
    high := 4 * m + 2
    closed := m % 2 = 0
    unit := x.exponent - 2 }

/-- Both sides of `n · 2^unit` compared with `d · 10^k`, cleared of denominators. -/
def scale (n d : Nat) (unit k : Int) : Nat × Nat :=
  (n * Nat.pow 2 unit.toNat * Nat.pow 10 (-k).toNat,
    d * Nat.pow 2 (-unit).toNat * Nat.pow 10 k.toNat)

/-- Whether the decimal `d · 10^k` lies in an interval. -/
def Interval.contains (i : Interval) (d : Nat) (k : Int) : Bool :=
  let (low, a) := scale i.low d i.unit k
  let (high, b) := scale i.high d i.unit k
  if i.closed then low ≤ a && b ≤ high else low < a && b < high

/-- The greatest power of ten that is not above the value. -/
def Interval.leadingPower (i : Interval) : Int :=
  let num := i.value * Nat.pow 2 i.unit.toNat
  let den := Nat.pow 2 (-i.unit).toNat
  let guess : Int := (Digits.write 10 num).length - (Digits.write 10 den).length
  let (a, b) := scale i.value 1 i.unit guess
  if b ≤ a then guess else guess - 1

/-- The decimal on the grid of `10^k` that is nearest to the value among those in the interval. -/
def Interval.nearest? (i : Interval) (tieToEven : Bool) (k : Int) : Option Nat :=
  let (num, den) := scale i.value 1 i.unit k
  let below := num / den
  let inBelow := 0 < below && i.contains below k
  let inAbove := i.contains (below + 1) k
  let twice := 2 * (num % den)
  if inBelow && inAbove then
    if twice < den then some below
    else if den < twice then some (below + 1)
    else if tieToEven && below % 2 == 0 then some below
    else some (below + 1)
  else if inBelow then some below
  else if inAbove then some (below + 1)
  else none

/-- Try grids from `10^k` down, at most `tries` of them. -/
def search (i : Interval) (tieToEven : Bool) : Nat → Int → Decimal
  | 0, k => ⟨0, k⟩
  | tries + 1, k =>
    match i.nearest? tieToEven k with
    | some d => ⟨d, k⟩
    | none => search i tieToEven tries (k - 1)

/-- Remove the zeros at the end of the digits, at most `tries` of them. -/
def dropZeros : Nat → Decimal → Decimal
  | 0, d => d
  | tries + 1, d =>
    if d.digits ≠ 0 ∧ d.digits % 10 = 0 then dropZeros tries ⟨d.digits / 10, d.exponent + 1⟩ else d

/-- The shortest decimal of a finite number that is not zero; seventeen digits always suffice. -/
def decimal (tieToEven : Bool) (x : Binary64) : Decimal :=
  let i := intervalOf x
  dropZeros 18 (search i tieToEven 18 i.leadingPower)

end Shortest

/-- The decisions of a format for floating-point numbers. -/
structure FloatLayout where
  /-- Of two nearest decimals, take the even one instead of the greater one. -/
  tieToEven : Bool
  /-- The least and one more than the greatest power of the leading digit without an exponent;
  none when there never is one. -/
  positional : Option (Int × Int)
  /-- Write whole numbers with one zero after the point. -/
  keepPoint : Bool
  nan : String
  infinity : String
  negativeInfinity : String

namespace FloatLayout

/-- Digits with the point after so many of them, or after zeros on either side. -/
def placePoint (layout : FloatLayout) (digits : List Char) (exponent : Int) : List Char :=
  let zeros (n : Nat) : List Char := List.replicate n '0'
  if 0 ≤ exponent then
    digits ++ zeros exponent.toNat ++ (if layout.keepPoint then ['.', '0'] else [])
  else
    let after := (-exponent).toNat
    if after < digits.length then
      digits.take (digits.length - after) ++ '.' :: digits.drop (digits.length - after)
    else '0' :: '.' :: zeros (after - digits.length) ++ digits

/-- Digits with the point after the first and an exponent. -/
def scientific (digits : List Char) (power : Int) : List Char :=
  let mantissa := match digits with
    | [] => []
    | [d] => [d]
    | d :: ds => d :: '.' :: ds
  let mark := if power < 0 then ['e', '-'] else ['e', '+']
  mantissa ++ mark ++ Digits.write 10 power.natAbs

/-- The text of a number. -/
def write (layout : FloatLayout) (x : Binary64) : String :=
  if x.isNaN then layout.nan
  else if x.isInfinite then (if x.negative then layout.negativeInfinity else layout.infinity)
  else
    let sign := if x.negative then ['-'] else []
    let body :=
      if x.isZero then layout.placePoint ['0'] 0
      else
        let d := Shortest.decimal layout.tieToEven x
        let digits := Digits.write 10 d.digits
        let power : Int := digits.length - 1 + d.exponent
        match layout.positional with
        | none => layout.placePoint digits d.exponent
        | some (low, high) =>
          if low ≤ power ∧ power < high then layout.placePoint digits d.exponent
          else scientific digits power
    String.ofList (sign ++ body)

/-- Numbers in lines and messages: never an exponent, no point in whole numbers, and of two nearest
decimals the greater. -/
def plain : FloatLayout :=
  { tieToEven := false
    positional := none
    keepPoint := false
    nan := "NaN"
    infinity := "inf"
    negativeInfinity := "-inf" }

/-- Numbers in JSON: positional from `0.00001` up to sixteen digits before the point, with at least
one digit after it; what is no number is null. -/
def json : FloatLayout :=
  { tieToEven := true
    positional := some (-5, 16)
    keepPoint := true
    nan := "null"
    infinity := "null"
    negativeInfinity := "null" }

end FloatLayout

end BinaryGrammar
