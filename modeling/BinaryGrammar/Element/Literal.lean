import BinaryGrammar.Number.Binary64
import BinaryGrammar.Number.Word
import BinaryGrammar.Text.Hex

/-!
# Fixed values

The values that a field may be required to have. A number is compared with both readings of a
field's bits, so that `255` and `-1` both match a byte of ones. Literals above the greatest signed
word are kept as the signed word with the same bits.
-/

set_option autoImplicit false

namespace BinaryGrammar

/-- A number that a fixed value or a mask writes. -/
inductive NumberLiteral where
  | int (value : Int)
  | float (value : Binary64)
  deriving DecidableEq, Repr

namespace NumberLiteral

/-- Whether the literal is an integer field, given its unsigned and its signed reading. -/
def matchesInt (raw : Nat) (signed : Int) : NumberLiteral → Bool
  | .int v => v == signed || Word.toUnsigned v == raw
  | .float x => x.equal (.ofInt signed)

/-- Whether the literal is a floating-point field. -/
def matchesFloat (v : Binary64) : NumberLiteral → Bool
  | .int n => (Binary64.ofInt n).equal v
  | .float x => x.equal v

end NumberLiteral

/-- A value with a name and a description. -/
structure FixedValue (α : Type) where
  name : String
  value : α
  description : String
  deriving DecidableEq, Repr

/-- A named bit mask and the values that its bits may have. -/
structure Mask where
  name : String
  value : Nat
  description : String
  values : List (FixedValue NumberLiteral)
  deriving DecidableEq, Repr

end BinaryGrammar
