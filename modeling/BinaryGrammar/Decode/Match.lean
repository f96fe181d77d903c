import BinaryGrammar.Number.Shortest
import BinaryGrammar.Text.Quoted
import BinaryGrammar.Value

/-!
# Fixed values of fields

Whether a decoded field has one of the values that its element lists. An element that lists none
accepts every field. The bits of an integer may also satisfy a mask: then one of the mask's values
is what the mask leaves of them.
-/

set_option autoImplicit false

namespace BinaryGrammar

/-- The values of a mask that an integer has, given its unsigned reading. -/
def Mask.hits (m : Mask) (raw : Nat) : List (FixedValue NumberLiteral) :=
  let masked := raw &&& m.value
  m.values.filter fun f => f.value.matchesInt masked (Word.toSigned masked)

namespace NumberBody

/-- Whether an integer with these readings has a listed value or one under a mask. -/
def acceptsInt (body : NumberBody) (raw : Nat) (signed : Int) : Bool :=
  (body.values.any fun f => f.value.matchesInt raw signed) ||
    body.masks.any fun m => !(m.hits raw).isEmpty

/-- Whether a floating-point number has a listed value. -/
def acceptsFloat (body : NumberBody) (x : Binary64) : Bool :=
  body.values.any fun f => f.value.matchesFloat x

/-- Whether a field has one of its fixed values. -/
def accepts (body : NumberBody) (v : Value) : Bool :=
  if body.values.isEmpty && body.masks.isEmpty then true
  else match v.float? with
    | some x => body.acceptsFloat x
    | none =>
      match v.readings? with
      | some (raw, signed) => body.acceptsInt raw signed
      | none => false

end NumberBody

/-- Whether a field has one of its fixed values. -/
def StringBody.accepts (body : StringBody) (v : Value) : Bool :=
  body.values.isEmpty || body.values.any fun f => some f.value == v.text?

/-- Whether a field has one of its fixed values. -/
def BinaryBody.accepts (body : BinaryBody) (v : Value) : Bool :=
  body.values.isEmpty || body.values.any fun f => some f.value == v.bytes?

/-- The text that stands for a payload that was not accepted. -/
def Payload.shown : Payload → String
  | .none => ""
  | .int v => Digits.decimalInt v
  | .uint v => Digits.decimal v
  | .offset v => Digits.decimal v
  | .float x => FloatLayout.plain.write x
  | .text s => Text.quoted s
  | .bytes b => Hex.encode b
  | .custom s => s

end BinaryGrammar
