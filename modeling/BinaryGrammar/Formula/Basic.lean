import BinaryGrammar.Number.Word

/-!
# Formulas

Integer arithmetic over fields that have already been decoded. Operators bind as in C: from
loosest to tightest `|`, `^`, `&`, the shifts, sums, products, and then the signs `-` and `~`.
Operators of one level associate to the left.
-/

set_option autoImplicit false

namespace BinaryGrammar

/-- The operators before an operand. -/
inductive UnaryOp where
  | negate
  | complement
  deriving DecidableEq, Repr

/-- The operators between two operands. -/
inductive BinaryOp where
  | or
  | xor
  | and
  | shiftLeft
  | shiftRight
  | add
  | subtract
  | multiply
  | divide
  | remainder
  deriving DecidableEq, Repr

namespace BinaryOp

/-- How tightly an operator binds; larger is tighter. -/
def level : BinaryOp → Nat
  | or => 0
  | xor => 1
  | and => 2
  | shiftLeft => 3
  | shiftRight => 3
  | add => 4
  | subtract => 4
  | multiply => 5
  | divide => 5
  | remainder => 5

/-- The levels from tightest to loosest. -/
def levels : List Nat := [5, 4, 3, 2, 1, 0]

end BinaryOp

/-- A formula. A path is a field name, or several for a field inside another. -/
inductive Formula where
  | number (value : Int)
  | path (names : List String)
  | unary (op : UnaryOp) (operand : Formula)
  | binary (op : BinaryOp) (left right : Formula)
  deriving DecidableEq, Repr, Inhabited

/-- Why a formula has no value. -/
inductive EvalError where
  /-- The text is not a formula. -/
  | malformed (detail : String)
  /-- The text is a formula but for a number that is no signed word. -/
  | invalidNumber (text : String)
  | unknownName (path : String)
  | divisionByZero
  | overflow
  deriving DecidableEq, Repr

/-- The wording of each cause. -/
def EvalError.message : EvalError → String
  | .malformed detail => "parse error: " ++ detail
  | .invalidNumber text => "parse error: invalid number " ++ text
  | .unknownName path => "unknown field `" ++ path ++ "`"
  | .divisionByZero => "division by zero"
  | .overflow => "arithmetic overflow"

end BinaryGrammar
