import BinaryGrammar.Formula.Parser

/-!
# Values of formulas

A formula is evaluated over signed words in a scope that gives the values of paths. A sum,
difference, product, negation or quotient that is no signed word is an overflow. A shift count must
be one of 0 to 63; a shift to the left keeps the lowest sixty-four bits and a shift to the right
keeps the sign.
-/

set_option autoImplicit false

namespace BinaryGrammar

/-- Values of fields already decoded, by path. -/
abbrev Scope := List String → Option Int

/-- The scope without any field. -/
def Scope.empty : Scope := fun _ => none

/-- A way to give formula texts a value. -/
abbrev Evaluator := Scope → String → Except EvalError Int

namespace Formula

/-- A path as it is written. -/
def pathText (names : List String) : String := ".".intercalate names

/-- The integer itself when it is a signed word. -/
def checked (v : Int) : Except EvalError Int :=
  if Word.IsSigned v then .ok v else .error .overflow

/-- The signed word with the given bits. -/
def ofBits (b : BitVec 64) : Int := b.toInt

/-- The bits of a signed word. -/
def toBits (v : Int) : BitVec 64 := BitVec.ofInt 64 v

/-- The number of places of a shift. -/
def shiftCount (v : Int) : Except EvalError Nat :=
  if 0 ≤ v ∧ v < 64 then .ok v.toNat else .error .overflow

/-- The value of an operator before its operand. -/
def applyUnary (op : UnaryOp) (v : Int) : Except EvalError Int :=
  match op with
  | .negate => checked (-v)
  | .complement => .ok (ofBits (~~~ toBits v))

/-- The value of an operator between its operands. -/
def applyBinary (op : BinaryOp) (a b : Int) : Except EvalError Int :=
  match op with
  | .add => checked (a + b)
  | .subtract => checked (a - b)
  | .multiply => checked (a * b)
  | .divide => if b = 0 then .error .divisionByZero else checked (a.tdiv b)
  | .remainder =>
    if b = 0 then .error .divisionByZero
    -- the quotient has to exist as well
    else if a = Word.least ∧ b = -1 then .error .overflow
    else .ok (a.tmod b)
  | .shiftLeft =>
    match shiftCount b with
    | .ok n => .ok (ofBits (toBits a <<< n))
    | .error e => .error e
  | .shiftRight =>
    match shiftCount b with
    | .ok n => .ok (ofBits ((toBits a).sshiftRight n))
    | .error e => .error e
  | .and => .ok (ofBits (toBits a &&& toBits b))
  | .or => .ok (ofBits (toBits a ||| toBits b))
  | .xor => .ok (ofBits (toBits a ^^^ toBits b))

/-- The value of a formula; of two operands that fail the left one is reported. -/
def eval (scope : Scope) : Formula → Except EvalError Int
  | .number v => .ok v
  | .path names =>
    match scope names with
    | some v => .ok v
    | none => .error (.unknownName (pathText names))
  | .unary op f =>
    match eval scope f with
    | .ok v => applyUnary op v
    | .error e => .error e
  | .binary op f g =>
    match eval scope f with
    | .error e => .error e
    | .ok a =>
      match eval scope g with
      | .error e => .error e
      | .ok b => applyBinary op a b

/-- Read a formula and give its value. -/
def evaluate : Evaluator := fun scope text =>
  match parse text with
  | .ok f => eval scope f
  | .error e => .error e

end Formula

end BinaryGrammar
