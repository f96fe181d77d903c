import BinaryGrammar.Render.Line

/-!
# Values as indented trees

Every value has a line `name [place] = text`, and its fields follow two spaces deeper. The place is
the offset and the number of bytes, or the first bit and the number of bits.
-/

set_option autoImplicit false

namespace BinaryGrammar.Render

/-- The name by which a value is shown. -/
def shownName (doc : Document) (v : Value) : String :=
  let e := doc.element v.element
  match e.body with
  | .padding => "<padding>"
  | _ => if e.name.isEmpty then "<unnamed>" else e.name

/-- The place of a value in the data. -/
def place (v : Value) : String :=
  match v.bits with
  | some span =>
    Digits.decimal v.offset ++ "." ++ Digits.decimal span.first ++ "+" ++
      Digits.decimal span.count ++ "b"
  | none => Digits.decimal v.offset ++ "+" ++ Digits.decimal v.length

/-- The line of a value at a depth. -/
def treeLine (doc : Document) (data : Bytes) (depth : Nat) (v : Value) : String :=
  let blank := String.ofList (List.replicate (2 * depth) ' ')
  let head := blank ++ shownName doc v ++ " [" ++ place v ++ "]"
  let text := line doc data v
  if text.isEmpty then head else head ++ " = " ++ text

mutual

/-- Add the lines of a value and its fields at a depth. -/
def treeLinesTo (doc : Document) (data : Bytes) (depth : Nat) (out : Array String) :
    Value → Array String
  | ⟨element, offset, length, bits, payload, children⟩ =>
    let v : Value := ⟨element, offset, length, bits, payload, children⟩
    childLinesTo doc data (depth + 1) (out.push (treeLine doc data depth v)) children

/-- Add the lines of some values at a depth. -/
def childLinesTo (doc : Document) (data : Bytes) (depth : Nat) (out : Array String) :
    List Value → Array String
  | [] => out
  | v :: vs => childLinesTo doc data depth (treeLinesTo doc data depth out v) vs

end

/-- The tree of a value decoded from some data. -/
def tree (doc : Document) (data : Bytes) (v : Value) : String :=
  "\n".intercalate (treeLinesTo doc data 0 #[] v).toList

end BinaryGrammar.Render
