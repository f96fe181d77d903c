import BinaryGrammar.Number.Integer
import BinaryGrammar.Text.Blank

/-!
# Expressions

Lengths, repeat bounds and offsets are authored as expressions: a constant, or the text of a
formula that is evaluated while decoding. An attribute left blank has no expression, which means
that it is inherited or takes its default.
-/

set_option autoImplicit false

namespace BinaryGrammar

/-- A constant or the text of a formula. -/
inductive Expression where
  | constant (value : Int)
  | formula (text : String)
  deriving DecidableEq, Repr, Inhabited

namespace Expression

/-- The repeat bound that allows as many instances as the data holds. -/
def unlimited : Expression := .constant (-1)

/-- The expression an attribute writes, if it is not blank. -/
def parse? (s : String) : Option Expression :=
  let t := Text.trim s
  if t.isEmpty then none
  else if Text.sameIgnoringCase t "unlimited" then some unlimited
  else match Integer.parse? t with
    | some v => some (.constant v)
    | none => some (.formula t)

/-- The value of a constant. -/
def constant? : Expression → Option Int
  | .constant v => some v
  | .formula _ => none

/-- The text of an expression, which reads back as the same expression. -/
def text : Expression → String
  | .constant v => Digits.decimalInt v
  | .formula t => t

end Expression

end BinaryGrammar
