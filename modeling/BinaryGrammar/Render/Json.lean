import BinaryGrammar.Json.Basic
import BinaryGrammar.Render.Tree

/-!
# Values as JSON

Two forms: `describe` names each value and its kind and writes payloads as plain JSON, with keys in
alphabetical order; `Value.toJson` writes what a value holds field by field, with the number of its
element and the type of its payload.
-/

set_option autoImplicit false

namespace BinaryGrammar

/-- The number that denotes a floating-point number; null for infinities and what is no number. -/
def Json.ofFloat (x : Binary64) : Json :=
  if x.isNaN || x.isInfinite then .null else .number (FloatLayout.json.write x)

namespace Render

/-- The plain JSON of a payload. -/
def payloadJson? : Payload → Option Json
  | .none => none
  | .int v => some (.ofInt v)
  | .uint v => some (.ofNat v)
  | .offset v => some (.ofNat v)
  | .float x => some (.ofFloat x)
  | .text s => some (.ofText s)
  | .custom s => some (.ofText s)
  | .bytes b => some (.ofText (Hex.encode b))

/-- A field of an object that is there only with a value. -/
def optionalField (key : String) (value : Option Json) : List (String × Json) :=
  match value with
  | some json => [(key, json)]
  | none => []

/-- A list of values; none when it is empty. -/
def listJson? (items : List Json) : Option Json :=
  if items.isEmpty then none else some (.array items)

mutual

/-- A value by names and kinds. -/
def describe (doc : Document) : Value → Json
  | ⟨element, offset, length, bits, payload, children⟩ =>
    let v : Value := ⟨element, offset, length, bits, payload, children⟩
    let span := bits.map fun span =>
      Json.ofFields [("count", .ofNat span.count), ("first", .ofNat span.first)]
    .ofFields
      (optionalField "bits" span
        ++ optionalField "children" (listJson? (describeAll doc [] children))
        ++ [("kind", .ofText (doc.element element).kind.name), ("length", .ofNat length),
          ("name", .ofText (shownName doc v)), ("offset", .ofNat offset)]
        ++ optionalField "value" (payloadJson? payload))

/-- Values by names and kinds, after those in `acc` (newest first). -/
def describeAll (doc : Document) (acc : List Json) : List Value → List Json
  | [] => acc.reverse
  | v :: vs => describeAll doc (describe doc v :: acc) vs

end

end Render

/-- The name of the type of a payload. -/
def Payload.typeName : Payload → String
  | .none => "none"
  | .int _ => "int"
  | .uint _ => "uint"
  | .float _ => "float"
  | .text _ => "text"
  | .bytes _ => "bytes"
  | .offset _ => "offset"
  | .custom _ => "custom"

/-- What a payload holds, with its type; bytes are a list of numbers. -/
def Payload.toJson (p : Payload) : Json :=
  let value := match p with
    | .bytes b => some (.array (b.toList.map fun byte => .ofNat byte.toNat))
    | p => Render.payloadJson? p
  .ofFields (("type", .ofText p.typeName) :: Render.optionalField "value" value)

mutual

/-- What a value holds, field by field. -/
def Value.toJson : Value → Json
  | ⟨element, offset, length, bits, payload, children⟩ =>
    let span := bits.map fun span =>
      Json.ofFields [("first", .ofNat span.first), ("count", .ofNat span.count)]
    .ofFields
      ([("element", .ofNat element), ("offset", .ofNat offset), ("length", .ofNat length)]
        ++ Render.optionalField "bits" span
        ++ [("payload", payload.toJson)]
        ++ Render.optionalField "children" (Render.listJson? (Value.allToJson [] children)))

/-- What some values hold, after those in `acc` (newest first). -/
def Value.allToJson (acc : List Json) : List Value → List Json
  | [] => acc.reverse
  | v :: vs => Value.allToJson (v.toJson :: acc) vs

end

end BinaryGrammar
