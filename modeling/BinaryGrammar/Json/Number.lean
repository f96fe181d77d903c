import BinaryGrammar.Json.Basic
import BinaryGrammar.Number.Binary64
import BinaryGrammar.Number.Word

/-!
# Range of JSON numbers

A number is kept as a significand of sixty-four bits and a power of ten: digits for which the
significand has no room are dropped. The significand and the power are rounded to floating-point
numbers and then multiplied, and the number is in range if this product is finite. Because it is
rounded three times, the bound is not exactly that of the format.
-/

set_option autoImplicit false

namespace BinaryGrammar.Json

/-- A decimal: a significand times a power of ten. -/
structure Scaled where
  significand : Nat
  exponent : Int
  deriving DecidableEq, Repr

namespace Scaled

/-- Add a digit to the significand, if there is room for it. -/
def push? (s : Scaled) (digit : Nat) : Option Nat :=
  let n := s.significand * 10 + digit
  if n ≤ Word.mask then some n else none

/-- Go on with the digits before the point. From the first that is dropped on they only count as
places. -/
def withWhole : Scaled → List Char → Scaled
  | s, [] => s
  | s, c :: cs =>
    match s.push? (c.toNat - '0'.toNat) with
    | some n => withWhole { s with significand := n } cs
    | none => { s with exponent := s.exponent + (c :: cs).length }

/-- Go on with the digits after the point, up to the first that is dropped. -/
def withFraction : Scaled → List Char → Scaled
  | s, [] => s
  | s, c :: cs =>
    match s.push? (c.toNat - '0'.toNat) with
    | some n => withFraction { significand := n, exponent := s.exponent - 1 } cs
    | none => s

/-- The digits after a point at the head of some characters. -/
def fractionDigits : List Char → List Char
  | '.' :: cs => cs.takeWhile Char.isDigit
  | _ => []

/-- The power of ten after an exponent mark; none is written as zero. -/
def exponentOf (cs : List Char) : Int :=
  match cs.dropWhile fun c => !Binary64.isExponentMark c with
  | [] => 0
  | _ :: digits => (Binary64.readExponent? digits).getD 0

/-- The decimal that an unsigned number writes. -/
def ofChars (cs : List Char) : Scaled :=
  let whole := withWhole ⟨0, 0⟩ (cs.takeWhile Char.isDigit)
  let s := whole.withFraction (fractionDigits (cs.dropWhile Char.isDigit))
  { s with exponent := s.exponent + exponentOf cs }

/-- The greatest power of ten that is a floating-point number. -/
def greatestPower : Int := 308

/-- Whether a decimal is in range. -/
def inRange (s : Scaled) : Bool :=
  if s.significand = 0 ∨ s.exponent < 0 then true
  else if greatestPower < s.exponent then false
  else !((Binary64.ofInt s.significand).mul (.ofDecimal false 1 s.exponent)).isInfinite

end Scaled

/-- Whether the number that a text writes is in range. -/
def isInRange (text : String) : Bool :=
  match text.toList with
  | '-' :: cs => (Scaled.ofChars cs).inRange
  | cs => (Scaled.ofChars cs).inRange

end BinaryGrammar.Json
