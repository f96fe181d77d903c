import BinaryGrammar.Document.Basic

/-!
# Decoded values

A value is one instance of an element, with the place in the data that it covers. Values of
structures hold the values of their fields, so that decoding gives a tree.
-/

set_option autoImplicit false

namespace BinaryGrammar

/-- The bits of a value within its bytes. Bit 0 is the highest bit of the first byte. -/
structure BitSpan where
  first : Nat
  count : Nat
  deriving DecidableEq, Repr

/-- What a value holds apart from its place. -/
inductive Payload where
  /-- Structures, scripts and padding hold nothing. -/
  | none
  | int (value : Int)
  | uint (value : Nat)
  | float (value : Binary64)
  | text (value : String)
  | bytes (value : Bytes)
  /-- The value of an offset, which is not followed. -/
  | offset (value : Nat)
  /-- The text by which a script shows a field. -/
  | custom (display : String)
  deriving DecidableEq, Repr, Inhabited

/-- One decoded instance of an element. -/
structure Value where
  /-- The number of the element. -/
  element : Nat
  /-- The byte offset in the data. -/
  offset : Nat
  /-- The bytes covered, including a last one that is used in part. -/
  length : Nat
  /-- The bits, if the value does not begin and end with a byte. -/
  bits : Option BitSpan := Option.none
  payload : Payload := .none
  /-- The values of the fields, in the order of decoding. -/
  children : List Value := []
  deriving Inhabited

namespace Value

/-- The byte offset after the value. -/
def stop (v : Value) : Nat := v.offset + v.length

/-! ## Readings of the payload -/

/-- The payload as a signed word. -/
def int? (v : Value) : Option Int :=
  match v.payload with
  | .int n => some n
  | .uint n => if (n : Int) ≤ Word.greatest then some n else none
  | .offset n => if (n : Int) ≤ Word.greatest then some n else none
  | _ => none

/-- The payload as an unsigned word. -/
def uint? (v : Value) : Option Nat :=
  match v.payload with
  | .uint n => some n
  | .offset n => some n
  | .int n => if 0 ≤ n then some n.toNat else none
  | _ => none

/-- The payload as a floating-point number. -/
def float? (v : Value) : Option Binary64 :=
  match v.payload with
  | .float x => some x
  | _ => none

/-- The payload as a text. -/
def text? (v : Value) : Option String :=
  match v.payload with
  | .text s => some s
  | .custom s => some s
  | _ => none

/-- The payload as bytes. -/
def bytes? (v : Value) : Option Bytes :=
  match v.payload with
  | .bytes b => some b
  | _ => none

/-- The number of bits that the value covers. -/
def width (v : Value) : Nat :=
  match v.bits with
  | some span => span.count
  | none => v.length * 8

/-- The unsigned and the signed reading of the bits of an integer. -/
def readings? (v : Value) : Option (Nat × Int) :=
  let width := min v.width 64
  match v.payload with
  | .int n => some (Word.unsignedOf width n, n)
  | .uint n => some (n, if width = 0 then Word.toSigned n else Word.signedOf width n)
  | .offset n => some (n, if width = 0 then Word.toSigned n else Word.signedOf width n)
  | _ => none

/-! ## Fields -/

/-- Whether a value is an instance of an element with a name. -/
def isNamed (doc : Document) (name : String) (v : Value) : Bool :=
  (doc.element v.element).name == name

/-- The last field with a name. -/
def child? (doc : Document) (v : Value) (name : String) : Option Value :=
  v.children.reverse.find? (isNamed doc name)

/-- All fields with a name, in order. -/
def childrenNamed (doc : Document) (v : Value) (name : String) : List Value :=
  v.children.filter (isNamed doc name)

end Value

end BinaryGrammar
