import BinaryGrammar.Number.Digits
import BinaryGrammar.Number.Word

/-!
# Integer literals

An authored integer is an optional sign, an optional base mark (`0x`, `0o` or `0b`, in either case)
and one or more digits of that base. It denotes a signed word, and a text whose value is not one is
no literal at all.
-/

set_option autoImplicit false

namespace BinaryGrammar.Integer

/-- Split an optional sign from the rest; true means a minus sign. -/
def splitSign : List Char → Bool × List Char
  | '-' :: rest => (true, rest)
  | '+' :: rest => (false, rest)
  | cs => (false, cs)

/-- Split an optional base mark from the digits; without a mark the base is ten. -/
def splitBase : List Char → Nat × List Char
  | '0' :: 'x' :: rest => (16, rest)
  | '0' :: 'X' :: rest => (16, rest)
  | '0' :: 'o' :: rest => (8, rest)
  | '0' :: 'O' :: rest => (8, rest)
  | '0' :: 'b' :: rest => (2, rest)
  | '0' :: 'B' :: rest => (2, rest)
  | cs => (10, cs)

/-- The rest of a text after a hexadecimal mark, if it starts with one. -/
def afterHexMark? : List Char → Option (List Char)
  | '0' :: 'x' :: rest => some rest
  | '0' :: 'X' :: rest => some rest
  | _ => none

/-- The integer a list of characters denotes. -/
def ofChars? (cs : List Char) : Option Int :=
  let (negative, unsigned) := splitSign cs
  let (base, digits) := splitBase unsigned
  match Digits.read? base digits with
  | none => none
  | some n =>
    let v : Int := if negative then -(n : Int) else n
    if Word.IsSigned v then some v else none

/-- The integer a text denotes. -/
def parse? (s : String) : Option Int := ofChars? s.toList

end BinaryGrammar.Integer
