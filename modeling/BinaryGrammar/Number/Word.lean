/-!
# Words of sixty-four bits

Positions, lengths and unsigned fields are natural numbers below `Word.modulus`; signed values are
integers between `Word.least` and `Word.greatest`. The operations here say how numbers outside
those ranges are treated, and relate the two readings of one word by two's complement.
-/

set_option autoImplicit false

namespace BinaryGrammar.Word

/-- One more than the largest unsigned word: two to the power 64. -/
def modulus : Nat := 0x10000000000000000

/-- The largest unsigned word. -/
def mask : Nat := 0xFFFFFFFFFFFFFFFF

/-- The least signed word. -/
def least : Int := -0x8000000000000000

/-- The greatest signed word. -/
def greatest : Int := 0x7FFFFFFFFFFFFFFF

/-- Whether an integer is a signed word. -/
def IsSigned (v : Int) : Prop := least ≤ v ∧ v ≤ greatest

instance (v : Int) : Decidable (IsSigned v) :=
  inferInstanceAs (Decidable (least ≤ v ∧ v ≤ greatest))

/-- Product of two words, stopping at the largest word. -/
def mulSaturating (a b : Nat) : Nat := min (a * b) mask

/-- Sum of two words when it is a word. -/
def add? (a b : Nat) : Option Nat := if a + b < modulus then some (a + b) else none

/-- Product of two words when it is a word. -/
def mul? (a b : Nat) : Option Nat := if a * b < modulus then some (a * b) else none

/-- The signed reading of the lowest `width` bits of a number, by two's complement. -/
def signedOf (width n : Nat) : Int := (BitVec.ofNat width n).toInt

/-- The signed word with the same bits as an unsigned word. -/
def toSigned (n : Nat) : Int := signedOf 64 n

/-- The unsigned reading of the lowest `width` bits of an integer, by two's complement. -/
def unsignedOf (width : Nat) (v : Int) : Nat := (BitVec.ofInt width v).toNat

/-- The unsigned word with the same bits as a signed word. -/
def toUnsigned (v : Int) : Nat := unsignedOf 64 v

/-- Whole bytes that hold the given number of bits. -/
def bytesOfBits (bits : Nat) : Nat := (bits + 7) / 8

/-- The first byte boundary at or after a bit position. -/
def alignUp (bits : Nat) : Nat := bytesOfBits bits * 8

end BinaryGrammar.Word
