import BinaryGrammar.Formula.Token
import BinaryGrammar.Number.Integer

/-!
# Reading formulas

Tokens are read from left to right with a stack of the parentheses that are open. Inside one pair
of parentheses the operands and operators are collected in a row; when the row ends, operators are
applied level by level, the tightest first, and from left to right within a level.
-/

set_option autoImplicit false

namespace BinaryGrammar.Formula

/-- What has been read inside one pair of parentheses, newest first: the operands that an operator
already follows, and the signs before the operand that comes next. -/
structure Row where
  operands : List (Formula × BinaryOp) := []
  signs : List UnaryOp := []

/-- Apply signs to an operand, the nearest one first. -/
def applySigns (signs : List UnaryOp) (f : Formula) : Formula :=
  signs.foldl (fun g op => .unary op g) f

/-- Apply the operators of one level, from left to right. -/
def joinLevel (level : Nat) :
    Formula → List (BinaryOp × Formula) → Formula × List (BinaryOp × Formula)
  | first, [] => (first, [])
  | first, (op, f) :: rest =>
    if op.level = level then joinLevel level (.binary op first f) rest
    else
      let (g, rest') := joinLevel level f rest
      (first, (op, g) :: rest')

/-- Apply all operators of a row whose first operand stands apart. -/
def joinLevels : List Nat → Formula → List (BinaryOp × Formula) → Formula
  | [], first, _ => first
  | level :: levels, first, rest =>
    let (f, rest') := joinLevel level first rest
    joinLevels levels f rest'

/-- Turn operands kept newest first into a first operand and the pairs after it. -/
def unroll : List (Formula × BinaryOp) → Formula → List (BinaryOp × Formula) →
    Formula × List (BinaryOp × Formula)
  | [], f, rest => (f, rest)
  | (g, op) :: before, f, rest => unroll before g ((op, f) :: rest)

/-- The formula of a row that ends with the operand `last`. -/
def Row.close (row : Row) (last : Formula) : Formula :=
  let (first, rest) := unroll row.operands last []
  joinLevels BinaryOp.levels first rest

/-- The value of a number token. A text that is no signed word counts as zero here, and is refused
by `parse`. -/
def numberValue (text : String) : Int := (Integer.parse? text).getD 0

/-- Read tokens, given the rows of the open parentheses, the innermost row, and the operand just
read in it, if one was. -/
def readTokens : List Token → List Row → Row → Option Formula → Option Formula
  | [], [], row, some f => some (row.close f)
  | [], _, _, _ => none
  | token :: tokens, outer, row, none =>
    match token with
    | .number text =>
      readTokens tokens outer row (some (applySigns row.signs (.number (numberValue text))))
    | .path names => readTokens tokens outer row (some (applySigns row.signs (.path names)))
    | .op .subtract => readTokens tokens outer { row with signs := .negate :: row.signs } none
    | .tilde => readTokens tokens outer { row with signs := .complement :: row.signs } none
    | .openParen => readTokens tokens (row :: outer) {} none
    | _ => none
  | token :: tokens, outer, row, some f =>
    match token with
    | .op op => readTokens tokens outer { operands := (f, op) :: row.operands } none
    | .closeParen =>
      match outer with
      | [] => none
      | above :: outer' =>
        readTokens tokens outer' above (some (applySigns above.signs (row.close f)))
    | _ => none

/-- Whether a token is a number outside the signed words. -/
def Token.isInvalidNumber : Token → Bool
  | .number text => (Integer.parse? text).isNone
  | _ => false

/-- The detail given for a text that is not a formula. -/
def malformedDetail : String := "not a formula"

/-- Read a formula. Of several invalid numbers the leftmost is reported. -/
def parse (text : String) : Except EvalError Formula :=
  match tokens? text with
  | none => .error (.malformed malformedDetail)
  | some tokens =>
    match readTokens tokens [] {} none with
    | none => .error (.malformed malformedDetail)
    | some f =>
      match tokens.find? Token.isInvalidNumber with
      | some (.number n) => .error (.invalidNumber n)
      | _ => .ok f

end BinaryGrammar.Formula
