import BinaryGrammar.Decode.Context
import BinaryGrammar.Decode.Failure

/-!
# Decoders

A decoder joins a document, a source, a way to evaluate formulas and an engine for scripts. Reading
moves a cursor, which counts bits so that numbers of any width can be packed; all other elements
begin with a byte. A reader may fail after it has moved the cursor. Every place that a reader works
out has to be a word.
-/

set_option autoImplicit false

namespace BinaryGrammar

/-- What stays the same while data are decoded. -/
structure Decoder (σ : Type) where
  document : Document
  source : ByteSource σ
  evaluator : Evaluator := Formula.evaluate
  scripts : ScriptEngine σ := .empty

/-- What changes while data are decoded. -/
structure Cursor (σ : Type) where
  /-- The bit position. -/
  pos : Nat := 0
  /-- The state of the source. -/
  source : σ

/-- The byte offset of a cursor, that of the byte it stands in. -/
def Cursor.offset {σ : Type} (c : Cursor σ) : Nat := c.pos / 8

/-- A computation that reads with a cursor and may fail. -/
abbrev Reader (σ : Type) := EStateM Failure (Cursor σ)

namespace Reader

variable {σ α : Type}

/-- Fail for a cause. -/
def fail (cause : Cause) : Reader σ α := throw { cause }

/-- A result that needs no reading. -/
def ofExcept : Except Cause α → Reader σ α
  | .ok a => pure a
  | .error cause => fail cause

/-- The bit position. -/
def pos : Reader σ Nat := do
  let c ← get
  return c.pos

/-- Move to a bit position. -/
def moveTo (pos : Nat) : Reader σ Unit := modify fun c => { c with pos }

/-- Fail for a cause unless a condition holds. -/
def require (p : Prop) [Decidable p] (cause : Cause) : Reader σ Unit :=
  if p then pure () else fail cause

/-- Overflow unless a number is a word. -/
def requireWord (n : Nat) : Reader σ Unit :=
  if n < Word.modulus then pure () else fail .overflow

/-- Fail unless the cursor stands at the beginning of a byte. -/
def ensureAligned : Reader σ Unit := do
  let pos ← pos
  require (pos % 8 = 0) (.misaligned pos)

end Reader

namespace Decoder

variable {σ : Type}

/-- Up to `count` bytes at an offset; fewer only where the data end. -/
def fetch (d : Decoder σ) (offset count : Nat) : Reader σ Bytes := fun c =>
  match d.source.readFull offset count c.source with
  | (.ok bytes, s) => .ok bytes { c with source := s }
  | (.error (.failed reason), s) => .error { cause := .source reason } { c with source := s }
  | (.error .overflow, s) => .error { cause := .overflow } { c with source := s }

/-- The number of bytes in the source, if it is known. -/
def size (d : Decoder σ) : Reader σ (Option Nat) := do
  let c ← get
  return d.source.size c.source

/-! ## Expressions and lengths -/

/-- The value of an expression among the fields decoded so far. -/
def evaluate (d : Decoder σ) (ctx : Context) (e : Expression) : Except Cause Int :=
  match e with
  | .constant v => .ok v
  | .formula text =>
    match d.evaluator (ctx.scope d.document) text with
    | .ok v => .ok v
    | .error cause => .error (.expression e cause)

/-- The bits of a length in the unit of an element. -/
def bitsOf (d : Decoder σ) (i : Nat) (length : Int) : Except Cause Nat :=
  if length < 0 then .error (.malformed (.lengthNegative length))
  else match Word.mul? length.toNat (d.document.lengthUnit i).bits with
    | some bits => .ok bits
    | none => .error (.malformed .lengthTooLarge)

/-- The bits themselves if they make whole bytes. -/
def wholeBytes (bits : Nat) : Except Cause Nat :=
  if bits % 8 = 0 then .ok bits else .error (.malformed (.lengthNotWhole bits))

/-- The length of an element in bits, if it has one. -/
def lengthBits? (d : Decoder σ) (ctx : Context) (i : Nat) : Except Cause (Option Nat) := do
  match d.document.length i with
  | none => return none
  | some e =>
    let length ← d.evaluate ctx e
    return some (← d.bitsOf i length)

/-- The length of an element in bytes, if it has one. -/
def lengthBytes? (d : Decoder σ) (ctx : Context) (i : Nat) : Except Cause (Option Nat) := do
  match ← d.lengthBits? ctx i with
  | none => return none
  | some bits => return some ((← wholeBytes bits) / 8)

/-- A length that has to be there. -/
def required (length : Option Nat) : Except Cause Nat :=
  match length with
  | some n => .ok n
  | none => .error (.malformed .lengthMissing)

/-- The length of an element in bits. -/
def lengthBits (d : Decoder σ) (ctx : Context) (i : Nat) : Except Cause Nat := do
  required (← d.lengthBits? ctx i)

/-- The length of an element in bytes. -/
def lengthBytes (d : Decoder σ) (ctx : Context) (i : Nat) : Except Cause Nat := do
  required (← d.lengthBytes? ctx i)

/-- The length of a structure with what is added to it. -/
def total (d : Decoder σ) (ctx : Context) (i : Nat) (length : Int) : Except Cause Int :=
  match d.document.lengthOffset i with
  | none => .ok length
  | some e =>
    match d.evaluate ctx e with
    | .error cause => .error cause
    | .ok extra =>
      if Word.IsSigned (length + extra) then .ok (length + extra)
      else .error (.malformed .lengthTooLarge)

/-- The length of a structure in bits with what is added to it, if it has a length. -/
def extentBits? (d : Decoder σ) (ctx : Context) (i : Nat) : Except Cause (Option Nat) := do
  match d.document.length i with
  | none => return none
  | some e =>
    let length ← d.evaluate ctx e
    let length ← d.total ctx i length
    let bits ← d.bitsOf i length
    return some (← wholeBytes bits)

/-- Whether the first byte of an element's numbers is the highest. -/
def bigEndian (d : Decoder σ) (i : Nat) : Except Cause Bool :=
  match d.document.endian i with
  | .big => .ok true
  | .little => .ok false
  | .dynamic => .error (.unsupported .dynamicEndian)

end Decoder

/-- The value of a field without fields of its own that lies between two bit positions. -/
def Value.leaf (element start stop : Nat) (payload : Payload) : Value :=
  let aligned := start % 8 = 0 ∧ stop % 8 = 0
  { element
    offset := start / 8
    length := Word.bytesOfBits stop - start / 8
    bits := if aligned then none else some ⟨start % 8, (stop - start) % 0x100000000⟩
    payload }

end BinaryGrammar
