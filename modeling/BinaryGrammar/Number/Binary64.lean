import BinaryGrammar.Number.Digits

/-!
# Floating-point numbers

A `Binary64` is the bit pattern of an IEEE 754 binary64. A finite one is a significand times a
power of two. Numbers are rounded to the nearest pattern in exact arithmetic, a tie going to the
even significand, so that reading a decimal, widening a binary32 and converting an integer are all
instances of `ofRatio`.
-/

set_option autoImplicit false

namespace BinaryGrammar

/-- The bits of a binary64 number. -/
structure Binary64 where
  bits : UInt64
  deriving DecidableEq, Repr, Inhabited

namespace Binary64

/-- The place value of the sign: two to the power 63. -/
def signBit : Nat := 0x8000000000000000

/-- The place value of the bit before the fraction: two to the power 52. -/
def leadingBit : Nat := 0x10000000000000

/-- The place value of the first bit of the fraction, which marks a quiet not-a-number. -/
def quietBit : Nat := 0x8000000000000

/-- The bits without the sign. -/
def magnitude (x : Binary64) : Nat := x.bits.toNat % signBit

/-- Whether the sign is set. -/
def negative (x : Binary64) : Bool := signBit ≤ x.bits.toNat

/-- The magnitude of the infinities. -/
def infiniteMagnitude : Nat := 0x7FF * leadingBit

/-- Not a number. -/
def isNaN (x : Binary64) : Bool := infiniteMagnitude < x.magnitude

/-- One of the two infinities. -/
def isInfinite (x : Binary64) : Bool := x.magnitude == infiniteMagnitude

/-- One of the two zeros. -/
def isZero (x : Binary64) : Bool := x.magnitude == 0

/-- The number with a sign and a magnitude. -/
def ofMagnitude (negative : Bool) (magnitude : Nat) : Binary64 :=
  ⟨UInt64.ofNat (if negative then signBit + magnitude else magnitude)⟩

/-- The integer significand of a finite number. -/
def significand (x : Binary64) : Nat :=
  if x.magnitude / leadingBit = 0 then x.magnitude % leadingBit
  else leadingBit + x.magnitude % leadingBit

/-- The power of two that the significand of a finite number is multiplied with. -/
def exponent (x : Binary64) : Int :=
  if x.magnitude / leadingBit = 0 then -1074 else (x.magnitude / leadingBit : Nat) - 1075

/-- Equality of numbers: not-a-number differs from all, and the two zeros are equal. -/
def equal (x y : Binary64) : Bool :=
  !x.isNaN && !y.isNaN && (x.bits == y.bits || (x.isZero && y.isZero))

/-! ## Rounding -/

/-- The quotient rounded to the nearest natural number, a tie going to the even one. -/
def roundDiv (num den : Nat) : Nat :=
  let q := num / den
  let r := num % den
  if den < 2 * r ∨ (2 * r = den ∧ q % 2 = 1) then q + 1 else q

/-- The power of two with which a quotient has a significand of fifty-three bits, or the least
power there is. -/
def scaleOf (num den : Nat) : Int :=
  let k : Int := (Nat.log2 num : Int) - Nat.log2 den
  let reaches : Bool :=
    if 0 ≤ k then den * Nat.pow 2 k.toNat ≤ num else den ≤ num * Nat.pow 2 (-k).toNat
  max (-1074) (if reaches then k - 52 else k - 53)

/-- The number nearest to a quotient of naturals with a sign. -/
def ofRatio (negative : Bool) (num den : Nat) : Binary64 :=
  if num = 0 then ofMagnitude negative 0
  else
    let e := scaleOf num den
    let q :=
      if 0 ≤ e then roundDiv num (den * Nat.pow 2 e.toNat)
      else roundDiv (num * Nat.pow 2 (-e).toNat) den
    ofMagnitude negative (min infiniteMagnitude (q + (e + 1074).toNat * leadingBit))

/-- The number nearest to an integer. -/
def ofInt (v : Int) : Binary64 := ofRatio (v < 0) v.natAbs 1

/-- The number nearest to the product of two finite numbers. -/
def mul (x y : Binary64) : Binary64 :=
  let e := x.exponent + y.exponent
  ofRatio (x.negative != y.negative) (x.significand * y.significand * Nat.pow 2 e.toNat)
    (Nat.pow 2 (-e).toNat)

/-- The number nearest to `digits` times a power of ten. -/
def ofDecimal (negative : Bool) (digits : Nat) (exponent : Int) : Binary64 :=
  let places : Int := (Digits.write 10 digits).length + exponent
  if digits = 0 ∨ places < -330 then ofMagnitude negative 0
  else if 310 < places then ofMagnitude negative infiniteMagnitude
  else if 0 ≤ exponent then ofRatio negative (digits * Nat.pow 10 exponent.toNat) 1
  else ofRatio negative digits (Nat.pow 10 (-exponent).toNat)

/-- The number with the value of a binary32 pattern. -/
def ofBinary32 (pattern : Nat) : Binary64 :=
  let negative : Bool := 0x80000000 ≤ pattern
  let e := pattern / 0x800000 % 0x100
  let f := pattern % 0x800000
  if e = 0xFF then
    if f = 0 then ofMagnitude negative infiniteMagnitude
    else ofMagnitude negative (infiniteMagnitude + quietBit + f * 0x20000000 % quietBit)
  else if e = 0 then ofRatio negative f (Nat.pow 2 149)
  else ofRatio negative ((0x800000 + f) * Nat.pow 2 e) (Nat.pow 2 150)

/-! ## Decimal texts -/

/-- The parts of an unsigned decimal: the digits as one number, and how many of them stand after
the point; none unless there is a digit. -/
def splitDecimal? (cs : List Char) : Option (Nat × Nat) :=
  let whole := cs.takeWhile Char.isDigit
  let rest := cs.dropWhile Char.isDigit
  let part? := match rest with
    | [] => some []
    | '.' :: part => if part.all Char.isDigit then some part else none
    | _ => none
  match part? with
  | none => none
  | some part =>
    match Digits.read? 10 (whole ++ part) with
    | some n => some (n, part.length)
    | none => none

/-- The exponent that digits write after an optional sign. -/
def readExponent? : List Char → Option Int
  | '-' :: cs => (Digits.read? 10 cs).map fun n => -(n : Int)
  | '+' :: cs => (Digits.read? 10 cs).map fun n => (n : Int)
  | cs => (Digits.read? 10 cs).map fun n => (n : Int)

/-- Whether a character begins an exponent. -/
def isExponentMark (c : Char) : Bool := c == 'e' || c == 'E'

/-- The number an unsigned text denotes: a decimal with an optional exponent. -/
def ofDecimalChars? (negative : Bool) (cs : List Char) : Option Binary64 :=
  let mantissa := cs.takeWhile fun c => !isExponentMark c
  let exponent? := match cs.dropWhile fun c => !isExponentMark c with
    | [] => some 0
    | _ :: digits => readExponent? digits
  match splitDecimal? mantissa, exponent? with
  | some (n, places), some e => some (ofDecimal negative n (e - places))
  | _, _ => none

/-- The number a text denotes: an optional sign, and then a decimal, `inf`, `infinity` or `nan` in
any case. -/
def parse? (s : String) : Option Binary64 :=
  let (negative, rest) := match s.toList with
    | '-' :: rest => (true, rest)
    | '+' :: rest => (false, rest)
    | cs => (false, cs)
  match String.ofList (rest.map Char.toLower) with
  | "inf" => some (ofMagnitude negative infiniteMagnitude)
  | "infinity" => some (ofMagnitude negative infiniteMagnitude)
  | "nan" => some (ofMagnitude negative (infiniteMagnitude + quietBit))
  | _ => ofDecimalChars? negative rest

end Binary64

end BinaryGrammar
