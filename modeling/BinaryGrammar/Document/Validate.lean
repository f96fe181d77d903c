import BinaryGrammar.Diagnostic
import BinaryGrammar.Document.Basic
import BinaryGrammar.Number.Word

/-!
# Validating attributes

Checks on single elements, made after attributes have been filled in: repeat bounds that contradict
each other, lengths that are missing, and constant lengths that no value of the kind can have.
Expressions that are formulas are not looked into.
-/

set_option autoImplicit false

namespace BinaryGrammar.Document

/-- Repeat bounds that are constants. An upper bound of -1 means that there is none. -/
def validateRepeats (doc : Document) (i : Nat) : List Diagnostic :=
  let label := doc.label i
  if (doc.element i).kind.repeatable then
    match (doc.repeatMin i).constant?, (doc.repeatMax i).constant? with
    | some lo, some hi =>
      if lo < 0 ∨ hi < -1 ∨ (0 ≤ hi ∧ hi < lo) then [.invalidRepeats label lo hi] else []
    | some lo, none => if lo < 0 then [.invalidRepeats label lo (-1)] else []
    | none, _ => []
  else []

/-- A constant length in bits, not exceeding the greatest signed word. -/
def constantBits (doc : Document) (i : Nat) (length : Int) : Int :=
  min Word.greatest (length * (doc.lengthUnit i).bits)

/-- Whether a number of bits lies in a range. -/
def within (low high bits : Int) : Bool := low ≤ bits && bits ≤ high

/-- The number of bits of a number. -/
def validateNumber (doc : Document) (i : Nat) (bits : Option Int) : List Diagnostic :=
  match doc.numberType i, bits with
  | .integer, some b =>
    if within 1 64 b then [] else [.invalidLength (doc.label i) b "integers are 1 to 64 bits"]
  | .float, some b =>
    if b = 32 ∨ b = 64 then [] else [.invalidLength (doc.label i) b "floats are 32 or 64 bits"]
  | _, none => []

/-- The length of a string. -/
def validateString (doc : Document) (i : Nat) (length : Option Expression) (bits : Option Int) :
    List Diagnostic :=
  let missing : Diagnostic := .missingAttribute (doc.label i) "length"
  match doc.stringType i with
  | .fixedLength => if length.isNone then [missing] else []
  | .pascal =>
    match bits with
    | some b =>
      if b % 8 = 0 ∧ within 8 64 b then []
      else [.invalidLength (doc.label i) b "pascal length prefix is 1 to 8 bytes"]
    | none => if length.isNone then [missing] else []
  | _ => []

/-- The length of an element. -/
def validateLength (doc : Document) (i : Nat) : List Diagnostic :=
  let label := doc.label i
  let missing : Diagnostic := .missingAttribute label "length"
  let length := doc.length i
  let constant := length.bind Expression.constant?
  match constant with
  | some n =>
    if n < 0 then [.invalidLength label n "must not be negative"]
    else
      let bits := doc.constantBits i n
      match (doc.element i).body with
      | .number _ => doc.validateNumber i (some bits)
      | .string _ => doc.validateString i length (some bits)
      | .offset _ =>
        if within 1 64 bits then [] else [.invalidLength label bits "offsets are 1 to 64 bits"]
      | _ => []
  | none =>
    match (doc.element i).body with
    | .number _ => if length.isNone then [missing] else []
    | .string _ => doc.validateString i length none
    | .binary _ => if length.isNone then [missing] else []
    | .offset _ => if length.isNone then [missing] else []
    | _ => []

/-- All checks on one element. -/
def validate (doc : Document) (i : Nat) : List Diagnostic :=
  doc.validateRepeats i ++ doc.validateLength i

end BinaryGrammar.Document
