import BinaryGrammar.Decode.Structure

/-!
# Reading elements

An element is read according to its kind. References read the structure that they name in their
place. Reading leaves the cursor after the value; when it fails the cursor is where it was, and the
name of the element is added to the path of the failure. Elements may be nested 128 deep, which
ends grammars that refer to themselves.
-/

set_option autoImplicit false

namespace BinaryGrammar.Decoder

variable {σ : Type}

/-- The deepest nesting of elements. -/
def depthLimit : Nat := 128

/-- Read an instance of a structure under the label of a reference. -/
def readTarget (d : Decoder σ) (read : ElementReader σ) (ctx : Context) (i : Nat)
    (target : Option Nat) (attr : String) : Reader σ Value :=
  match target with
  | none => Reader.fail (.danglingReference attr)
  | some t =>
    match (d.document.element t).body with
    | .struct body => d.readStructure read ctx i t body
    | _ => Reader.fail (.danglingReference attr)

/-- The value of an element that covers nothing. -/
def readNothing (i : Nat) : Reader σ Value := do
  let pos ← Reader.pos
  finishLeaf i pos .none

/-- Read an element according to its kind, with a reader for the elements inside it. -/
def readBody (d : Decoder σ) (read : ElementReader σ) (ctx : Context) (i : Nat) : Reader σ Value :=
  match (d.document.element i).body with
  | .struct body => d.readStructure read ctx i i body
  | .number body => d.readNumber ctx i body
  | .string body => d.readString ctx i body
  | .binary body => d.readBinary ctx i body
  | .offset _ => d.readOffset ctx i
  | .structRef body =>
    if body.disabled = some true then readNothing i
    else d.readTarget read ctx i (body.target.bind (·.target)) "structure"
  | .grammarRef body =>
    if body.disabled = some true then readNothing i
    else if (body.grammar.bind (·.target)).isNone then Reader.fail (.danglingReference "grammar")
    else d.readTarget read ctx i d.document.start "start"
  | .custom body => d.readCustom ctx i body
  | .script _ => readNothing i
  | .padding => Reader.fail (.unsupported .padding)

/-- Read an element with so many levels of nesting left. -/
def readElement (d : Decoder σ) : Nat → ElementReader σ
  | 0, _, i => throw { cause := .tooDeep depthLimit, path := [(d.document.element i).name] }
  | levels + 1, ctx, i => fun c =>
    match d.readBody (d.readElement levels) ctx i c with
    | .ok v c' => .ok v c'
    | .error failure c' =>
      .error (failure.within (d.document.element i).name) { c' with pos := c.pos }

/-! ## Sessions

A session reads from one source. Between its steps only the cursor is kept. -/

/-- Read an element at the cursor. -/
def read (d : Decoder σ) (i : Nat) : Reader σ Value := d.readElement depthLimit {} i

/-- Read the start structure at the cursor. -/
def decode (d : Decoder σ) : Reader σ Value :=
  match d.document.start with
  | some i => d.read i
  | none => Reader.fail (.danglingReference "start")

/-- Move the cursor to a byte offset. -/
def seek (offset : Nat) : Reader σ Unit :=
  match Word.mul? offset 8 with
  | some pos => Reader.moveTo pos
  | none => Reader.fail (.malformed (.offsetRange offset))

/-- Decode bytes from their beginning. -/
def decodeBytes (doc : Document) (data : Bytes) : Except Failure Value :=
  match decode { document := doc, source := .plain } { source := data } with
  | .ok v _ => .ok v
  | .error failure _ => .error failure

end BinaryGrammar.Decoder
