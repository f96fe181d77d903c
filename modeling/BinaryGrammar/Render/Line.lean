import BinaryGrammar.Decode.Match
import BinaryGrammar.Source

/-!
# Values in one line

The text of a value: integers in the base of their element, names of fixed values before the value
that they name, quoted texts, and the first bytes of longer data. Padding holds no bytes of its own,
so that its bytes are taken from the data.
-/

set_option autoImplicit false

namespace BinaryGrammar

/-- The digits of a natural number with the mark of its base. -/
def Display.digits (display : Display) (n : Nat) : List Char :=
  match display with
  | .dec => Digits.write 10 n
  | .hex => '0' :: 'x' :: (Digits.write 16 n).map Char.toUpper
  | .binary => '0' :: 'b' :: Digits.write 2 n

/-- The text of an integer. -/
def Display.integer (display : Display) (v : Int) : String :=
  String.ofList (if v < 0 then '-' :: display.digits v.natAbs else display.digits v.natAbs)

namespace Render

/-- The number of bytes that are shown of longer data. -/
def previewLimit : Nat := 16

/-- The first of `total` bytes, with dots if there are more. -/
def preview (bytes : Bytes) (total : Nat) : String :=
  let shown := bytes.extract 0 previewLimit
  if shown.size < total then Hex.encode shown ++ "..." else Hex.encode shown

/-- A text with a name before it, if the name is not empty. -/
def named (name : Option String) (text : String) : String :=
  match name with
  | some name => if name.isEmpty then text else name ++ " (" ++ text ++ ")"
  | none => text

/-- The names of all values under masks that an integer has. -/
def maskNames (body : NumberBody) (raw : Nat) : List String :=
  (body.masks.flatMap fun m => (m.hits raw).map (·.name)).filter fun name => !name.isEmpty

/-- The name of an integer: that of the first fixed value that it has or else, if this has no name,
the names of the values under masks. -/
def integerName (body : NumberBody) (raw : Nat) (signed : Int) : Option String :=
  let first := match body.values.find? fun f => f.value.matchesInt raw signed with
    | some f => f.name
    | none => ""
  let names := maskNames body raw
  if !first.isEmpty then some first
  else if names.isEmpty then none
  else some (" | ".intercalate names)

/-- The name of the first fixed value that satisfies a test. -/
def valueName {α : Type} (values : List (FixedValue α)) (p : α → Bool) : Option String :=
  (values.find? fun f => p f.value).map (·.name)

/-- The text of an integer payload, with its name if it is that of a number. -/
def integerLine (doc : Document) (v : Value) (n : Int) : String :=
  let text := (doc.display v.element).integer n
  match (doc.element v.element).body, v.readings? with
  | .number body, some (raw, signed) => named (integerName body raw signed) text
  | _, _ => text

/-- The text of a value without payload. -/
def bareLine (doc : Document) (data : Bytes) (v : Value) : String :=
  let fields :=
    Digits.decimal v.children.length ++ " fields, " ++ Digits.decimal v.length ++ " bytes"
  match (doc.element v.element).body with
  | .padding => preview (Bytes.slice data v.offset (min v.length previewLimit)) v.length
  | .struct _ => fields
  | .structRef _ => fields
  | .grammarRef _ => fields
  | _ => ""

/-- The text of a value decoded from some data. -/
def line (doc : Document) (data : Bytes) (v : Value) : String :=
  let body := (doc.element v.element).body
  match v.payload with
  | .none => bareLine doc data v
  | .int n => integerLine doc v n
  | .uint n => integerLine doc v n
  | .offset n => (doc.display v.element).integer n
  | .float x =>
    let name := match body with
      | .number b => valueName b.values (·.matchesFloat x)
      | _ => none
    named name (FloatLayout.plain.write x)
  | .text s =>
    let name := match body with
      | .string b => valueName b.values (· == s)
      | _ => none
    named name (Text.quoted s)
  | .bytes b =>
    let name := match body with
      | .binary e => valueName e.values (· == b)
      | _ => none
    named name (preview b b.size)
  | .custom s => s

end Render

end BinaryGrammar
