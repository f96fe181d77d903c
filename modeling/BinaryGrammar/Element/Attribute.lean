import BinaryGrammar.Diagnostic
import BinaryGrammar.Element.Basic
import BinaryGrammar.Record.Basic

/-!
# Interpreting attributes

The texts of a record become attributes of an element. A blank text leaves the attribute unset. A
text that cannot be interpreted leaves it unset as well and is reported, once, with the label of the
element.
-/

set_option autoImplicit false

namespace BinaryGrammar.Attribute

/-- Nothing, because a text has no meaning. -/
def invalid {α : Type} (label : Label) (attr value : String) : Noted (Option α) :=
  { value := none, notes := [.invalidValue label attr value] }

/-- Interpret a text that is not blank, after trimming it. -/
def interpret {α : Type} (read? : String → Option α) (label : Label) (attr s : String) :
    Noted (Option α) :=
  let t := Text.trim s
  if t.isEmpty then { value := none }
  else match read? t with
    | some v => { value := some v }
    | none => invalid label attr t

/-! ## Words of a list -/

/-- The meaning of a word, up to case. -/
def lookUp? {α : Type} (table : List (String × α)) (word : String) : Option α :=
  (table.find? fun (key, _) => Text.sameIgnoringCase key word).map (·.2)

/-- The words for a choice of yes or no. -/
def yesNoWords : List (String × Bool) :=
  [("yes", true), ("no", false), ("true", true), ("false", false)]

/-- The words for byte orders. -/
def endianWords : List (String × Endian) :=
  [("big", .big), ("little", .little), ("dynamic", .dynamic)]

/-- The words for bases of integers. -/
def displayWords : List (String × Display) := [("dec", .dec), ("hex", .hex), ("binary", .binary)]

/-- The words for units of length. -/
def lengthUnitWords : List (String × LengthUnit) := [("bit", .bit), ("byte", .byte)]

/-- The words for orders of elements. -/
def orderWords : List (String × Order) := [("fixed", .fixed), ("variable", .free)]

/-- The words for types of numbers. -/
def numberTypeWords : List (String × NumberType) := [("integer", .integer), ("float", .float)]

/-- The words for types of strings. -/
def stringTypeWords : List (String × StringType) :=
  [("zero-terminated", .zeroTerminated), ("fixed-length", .fixedLength), ("pascal", .pascal),
    ("delimiter-terminated", .delimiterTerminated)]

/-- One of the words of a list. -/
def pick {α : Type} (table : List (String × α)) (label : Label) (attr s : String) :
    Noted (Option α) :=
  interpret (lookUp? table) label attr s

/-- Yes or no. -/
def yesNo (label : Label) (attr s : String) : Noted (Option Bool) := pick yesNoWords label attr s

/-! ## Colours, delimiters and numbers -/

/-- The colour that three bytes in hexadecimal write. -/
def colour? (s : String) : Option Colour :=
  match Hex.decode? s with
  | some #[r, g, b] => some ⟨(r.toNat * 256 + g.toNat) * 256 + b.toNat⟩
  | _ => none

/-- A colour. -/
def colour (label : Label) (attr s : String) : Noted (Option Colour) :=
  interpret colour? label attr s

/-- The colours of an element. -/
def colours (label : Label) (c : Record.Common) : Noted Colours := do
  let fill ← colour label "fillcolor" c.fillcolor
  let stroke ← colour label "strokecolor" c.strokecolor
  return { fill, stroke }

/-- The byte that hexadecimal digits write, after an optional mark. -/
def delimiter? (s : String) : Option UInt8 :=
  let digits := (Integer.afterHexMark? s.toList).getD s.toList
  (Digits.readBounded? 16 255 digits).map UInt8.ofNat

/-- A delimiter. -/
def delimiter (label : Label) (s : String) : Noted (Option UInt8) :=
  interpret delimiter? label "delimiter" s

/-- The unsigned word that a text writes in decimal, or in hexadecimal after a mark. -/
def unsigned? (s : String) : Option Nat :=
  match Integer.afterHexMark? s.toList with
  | some digits => Digits.readBounded? 16 Word.mask digits
  | none => Digits.readBounded? 10 Word.mask s.toList

/-- The number that a text writes: a signed word, an unsigned word, or a decimal. -/
def numberLiteral? (s : String) : Option NumberLiteral :=
  match Integer.parse? s with
  | some v => some (.int v)
  | none =>
    match unsigned? s with
    | some n => some (.int (Word.toSigned n))
    | none => (Binary64.parse? s).map .float

/-- A number, which may not be blank. -/
def numberLiteral (label : Label) (s : String) : Noted (Option NumberLiteral) :=
  let t := Text.trim s
  match numberLiteral? t with
  | some v => { value := some v }
  | none => invalid label "value" t

/-! ## Fixed values -/

/-- Interpret each of a list and keep what has a meaning, in order. -/
def collect {α β : Type} (f : α → Noted (Option β)) : List α → Noted (List β)
  | [] => { value := [] }
  | a :: as => do
    let b ← f a
    let bs ← collect f as
    return b.toList ++ bs

/-- A fixed value of a number. -/
def fixedNumber (label : Label) (v : Record.FixedValue) :
    Noted (Option (FixedValue NumberLiteral)) := do
  let value ← numberLiteral label v.value
  return value.map fun n => ⟨v.name, n, v.description⟩

/-- A mask. Its values are only looked at when its own value is an integer. -/
def mask (label : Label) (m : Record.Mask) : Noted (Option Mask) := do
  match ← numberLiteral label m.value with
  | some (.int v) =>
    let values ← collect (fixedNumber label) m.values
    return some ⟨m.name, Word.toUnsigned v, m.description, values⟩
  | some (.float _) => invalid label "mask" m.value
  | none => return none

/-- A fixed value of a string. -/
def fixedString (v : Record.FixedValue) : FixedValue String := ⟨v.name, v.value, v.description⟩

/-- The bytes that hexadecimal digits write, with blanks anywhere and an optional mark. -/
def bytes? (s : String) : Option Bytes :=
  let digits := (Text.squeeze s).toList
  Hex.decodeFrom? #[] ((Integer.afterHexMark? digits).getD digits)

/-- A fixed value of a run of bytes. -/
def fixedBytes (label : Label) (v : Record.FixedValue) : Noted (Option (FixedValue Bytes)) :=
  match bytes? v.value with
  | some b => { value := some ⟨v.name, b, v.description⟩ }
  | none => invalid label "value" v.value

end BinaryGrammar.Attribute
