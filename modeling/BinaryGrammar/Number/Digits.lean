/-!
# Digits

Reading and writing natural numbers in a positional system. A digit is one of the ASCII characters
`0` to `9`, `a` to `z` or `A` to `Z`; the letters stand for the values from ten on.
-/

set_option autoImplicit false

namespace BinaryGrammar.Digits

/-- The value of a digit in the widest system, base thirty-six. -/
def value? (c : Char) : Option Nat :=
  if '0' ≤ c ∧ c ≤ '9' then some (c.toNat - '0'.toNat)
  else if 'a' ≤ c ∧ c ≤ 'z' then some (c.toNat - 'a'.toNat + 10)
  else if 'A' ≤ c ∧ c ≤ 'Z' then some (c.toNat - 'A'.toNat + 10)
  else none

/-- The value of a digit of the given base. -/
def valueIn? (base : Nat) (c : Char) : Option Nat :=
  match value? c with
  | some v => if v < base then some v else none
  | none => none

/-- Continue a number already read as `acc` with further digits. -/
def readFrom? (base : Nat) : Nat → List Char → Option Nat
  | acc, [] => some acc
  | acc, c :: cs =>
    match valueIn? base c with
    | some v => readFrom? base (acc * base + v) cs
    | none => none

/-- The number that one or more digits write. -/
def read? (base : Nat) : List Char → Option Nat
  | [] => none
  | cs => readFrom? base 0 cs

/-- The number that digits write after at most one plus sign, when it is at most `bound`. -/
def readBounded? (base bound : Nat) (cs : List Char) : Option Nat :=
  let digits := match cs with
    | '+' :: rest => rest
    | _ => cs
  match read? base digits with
  | some n => if n ≤ bound then some n else none
  | none => none

/-- The digits of a number, without leading zeros; zero is one digit. -/
def write (base n : Nat) : List Char :=
  Nat.toDigits base n

/-- The decimal text of a natural number. -/
def decimal (n : Nat) : String :=
  String.ofList (write 10 n)

/-- The decimal text of an integer, with a minus sign when it is negative. -/
def decimalInt (n : Int) : String :=
  if n < 0 then "-" ++ decimal n.natAbs else decimal n.natAbs

/-- Digits on the left of which zeros are written until there are `width` of them. -/
def padded (width : Nat) (digits : List Char) : List Char :=
  List.replicate (width - digits.length) '0' ++ digits

end BinaryGrammar.Digits
