import BinaryGrammar.Number.Digits

/-!
# Bytes in hexadecimal

A byte is written as two lower case hexadecimal digits, the high half first. Reading accepts both
cases and needs an even number of digits.
-/

set_option autoImplicit false

namespace BinaryGrammar

/-- A string of bytes. -/
abbrev Bytes := Array UInt8

namespace Hex

/-- The two digits of a byte. -/
def ofByte (b : UInt8) : List Char :=
  Digits.padded 2 (Digits.write 16 b.toNat)

/-- The hexadecimal text of some bytes. -/
def encode (bytes : Bytes) : String :=
  bytes.foldl (fun s b => (ofByte b).foldl String.push s) ""

/-- Read digits two at a time, appending to the bytes read so far. -/
def decodeFrom? : Bytes → List Char → Option Bytes
  | acc, [] => some acc
  | _, [_] => none
  | acc, high :: low :: rest =>
    match Digits.valueIn? 16 high, Digits.valueIn? 16 low with
    | some h, some l => decodeFrom? (acc.push (UInt8.ofNat (h * 16 + l))) rest
    | _, _ => none

/-- The bytes a hexadecimal text writes. -/
def decode? (s : String) : Option Bytes := decodeFrom? #[] s.toList

end Hex

end BinaryGrammar
