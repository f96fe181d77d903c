import BinaryGrammar.Decode.Field

/-!
# Reading structures

A structure reads its elements in order, each as often as its repeat bounds allow. A repetition also
ends when the structure of fixed length around it is exhausted, after an instance that covers
nothing, and, once there are enough instances, with a failure that only says that there are no
more. The length of a structure may depend on its own fields: it is settled as soon as the fields
that it names have been read. What a structure of fixed length leaves unread is padding.
-/

set_option autoImplicit false

namespace BinaryGrammar

/-- Where a structure that is being read ends. -/
inductive Extent where
  /-- Its length names fields that have not been read. -/
  | pending
  /-- It has no length and ends with its last field. -/
  | unbounded
  /-- At a bit position. -/
  | fixed (stop : Nat)
  deriving DecidableEq, Repr

/-- A structure whose fields are being read. -/
structure Progress (σ : Type) where
  cursor : Cursor σ
  frame : Frame := {}
  extent : Extent := .pending

/-- A computation that reads fields of a structure and may fail. -/
abbrev FieldReader (σ : Type) := EStateM Failure (Progress σ)

namespace Progress

variable {σ : Type}

/-- The surroundings of the next field, given those of the structure. -/
def context (p : Progress σ) (outer : Context) : Context where
  frames := p.frame :: outer.frames
  limit :=
    match p.extent with
    | .fixed stop => some (match outer.limit with | some limit => min limit stop | none => stop)
    | _ => outer.limit

/-- Whether the structure of fixed length around the next field is exhausted. -/
def exhausted (p : Progress σ) (outer : Context) : Bool :=
  (p.context outer).exhausted p.cursor.pos

/-- Add a field. -/
def push (p : Progress σ) (doc : Document) (v : Value) : Progress σ :=
  { p with frame := p.frame.push (doc.element v.element).name v }

end Progress

/-- A way to read an element in given surroundings. -/
abbrev ElementReader (σ : Type) := Context → Nat → Reader σ Value

namespace Decoder

variable {σ : Type}

/-! ## Extent -/

/-- The end of a structure of a length in bits, or why it cannot end there. -/
def stopOf (start pos length : Nat) : Except Cause Nat :=
  match Word.add? start length with
  | none => .error (.malformed .lengthTooLarge)
  | some stop =>
    if stop < pos then
      .error (.through (pos - start + 7)
        (.overrun (start / 8) (Word.bytesOfBits (pos - start)) (length / 8)))
    else .ok stop

/-- Settle where a structure ends if its length has a value already. With the last field read it
has to have one. -/
def settle (d : Decoder σ) (outer : Context) (i start : Nat) (last : Bool) : FieldReader σ Unit :=
  fun p =>
    match p.extent with
    | .pending =>
      match d.extentBits? (p.context outer) i with
      | .ok none => .ok () { p with extent := .unbounded }
      | .ok (some length) =>
        match stopOf start p.cursor.pos length with
        | .ok stop => .ok () { p with extent := .fixed stop }
        | .error cause => .error { cause } p
      | .error cause => if !last && cause.isUnknownName then .ok () p else .error { cause } p
    | _ => .ok () p

/-! ## Fields -/

/-- The value of a repeat bound among the fields read so far. -/
def bound (d : Decoder σ) (outer : Context) (e : Expression) : FieldReader σ Int := fun p =>
  match d.evaluate (p.context outer) e with
  | .ok n => .ok n p
  | .error cause => .error { cause } p

/-- How an attempt to read one more instance ends. -/
inductive Attempt where
  /-- There may be another instance. -/
  | more
  /-- The repetition ends here. -/
  | done
  deriving DecidableEq, Repr

/-- Try to read one more instance of an element. A failure ends the repetition if there are enough
instances. -/
def attempt (d : Decoder σ) (read : ElementReader σ) (outer : Context) (i start child : Nat)
    (enough : Bool) : FieldReader σ Attempt := fun p =>
  let before := p.cursor.pos
  match read (p.context outer) child p.cursor with
  | .ok v cursor =>
    let p := Progress.push { p with cursor } d.document v
    match d.settle outer i start false p with
    | .ok _ p => .ok (if cursor.pos = before then .done else .more) p
    | .error failure p => .error failure p
  | .error failure cursor =>
    if enough && failure.cause.endsRepetition then
      .ok .done { p with cursor := { cursor with pos := before } }
    else .error failure { p with cursor }

/-- Read instances of an element after the first `count`, at most so many more. Their number has to
be a word. -/
def readInstances (d : Decoder σ) (read : ElementReader σ) (outer : Context) (i start child : Nat)
    (least : Int) : Nat → Nat → FieldReader σ Unit
  | 0, _ => pure ()
  | allowed + 1, count => fun p =>
    if p.exhausted outer then .ok () p
    else match d.attempt read outer i start child (least ≤ count) p with
      | .ok .done p => .ok () p
      | .ok .more p =>
        if count + 1 < Word.modulus then
          d.readInstances read outer i start child least allowed (count + 1) p
        else .error { cause := .overflow } p
      | .error failure p => .error failure p

/-- The number of instances that a repeat bound allows. A negative bound allows more than can be
counted. -/
def allowedInstances (most : Int) : Nat := if most < 0 then Word.modulus else most.toNat

/-- Read the instances of each element in turn until the structure is exhausted. -/
def readElements (d : Decoder σ) (read : ElementReader σ) (outer : Context) (i start : Nat) :
    List Nat → FieldReader σ Unit
  | [] => pure ()
  | child :: rest => do
    let p ← get
    if p.exhausted outer then pure ()
    else
      let least ← d.bound outer (d.document.repeatMin child)
      let most ← d.bound outer (d.document.repeatMax child)
      d.readInstances read outer i start child least (allowedInstances most) 0
      d.readElements read outer i start rest

/-- Read all fields of a structure. -/
def readFields (d : Decoder σ) (read : ElementReader σ) (outer : Context) (i start : Nat)
    (children : List Nat) : FieldReader σ Unit := do
  d.settle outer i start false
  d.readElements read outer i start children
  d.settle outer i start true

/-! ## The end of a structure -/

/-- Fail when a structure ends after the one around it. -/
def requireOuter (outer : Context) (pos stop : Nat) : Reader σ Unit :=
  match outer.limit with
  | some limit =>
    Reader.require (stop ≤ limit)
      (.overrun (pos / 8) (Word.bytesOfBits (stop - pos)) ((limit - pos) / 8))
  | none => pure ()

/-- Fail when a structure ends after the data. If the number of bytes is unknown, the last byte of
the structure has to be there. -/
def requireStop (d : Decoder σ) (pos stop : Nat) : Reader σ Unit := do
  match ← d.size with
  | some size =>
    Reader.require (stop ≤ Word.mulSaturating size 8)
      (.endOfInput (pos / 8) (Word.bytesOfBits (stop - pos)) (size - pos / 8))
  | none =>
    Reader.requireWord (pos + 7)
    if Word.alignUp pos < stop then
      Reader.require (1 ≤ stop / 8) .overflow
      let last := stop / 8 - 1
      let bytes ← d.fetch last 1
      Reader.require (bytes.size ≠ 0) (.endOfInput last 1 0)
    else pure ()

/-- The padding between two bit positions, if there is a gap. -/
def paddingBetween (d : Decoder σ) (pos stop : Nat) : List Value :=
  let gap := Word.alignUp pos
  if gap < stop then
    [{ element := d.document.padding, offset := gap / 8, length := (stop - gap) / 8 }]
  else []

/-- Go to the end of a structure and give the padding before it. How many bytes there are to the end
is worked out whether they are missing or not. -/
def finish (d : Decoder σ) (outer : Context) (extent : Extent) : Reader σ (List Value) :=
  match extent with
  | .fixed stop => do
    let pos ← Reader.pos
    Reader.requireWord (stop - pos + 7)
    requireOuter outer pos stop
    d.requireStop pos stop
    Reader.requireWord (pos + 7)
    Reader.moveTo stop
    return d.paddingBetween pos stop
  | _ => do
    Reader.ensureAligned
    return []

/-- The value of a structure between two bit positions. -/
def structureValue (label start pos : Nat) (children : List Value) : Value where
  element := label
  offset := start / 8
  length := Word.bytesOfBits (pos - start)
  children

/-- The value of a structure between a bit position and the cursor. -/
def finishStructure (label start : Nat) (children : List Value) : Reader σ Value := do
  let pos ← Reader.pos
  Reader.requireWord (pos - start + 7)
  return structureValue label start pos children

/-- A failure within a structure of which the fields up to a bit position were read, with these
fields and what was decoded of the next. -/
def inStructure (label start pos : Nat) (children : List Value) (failure : Failure) : Failure :=
  let v := structureValue label start pos children
  Failure.through (pos - start + 7) <|
    match failure.salvage with
    | none => { failure with salvage := some v }
    | some part =>
      Failure.through part.stop
        { failure with
          salvage := some
            { v with
              length := max v.length (part.stop - v.offset)
              children := v.children ++ [part] } }

/-- Read an instance of a structure for an element, which is the structure itself or a reference
to it. -/
def readStructure (d : Decoder σ) (read : ElementReader σ) (outer : Context) (label i : Nat)
    (body : StructBody) : Reader σ Value := do
  Reader.require (d.document.order i = .fixed) (.unsupported .freeOrder)
  Reader.ensureAligned
  let start ← Reader.pos
  fun c =>
    match d.readFields read outer i start body.elements { cursor := c } with
    | .error failure p =>
      .error (inStructure label start p.cursor.pos p.frame.values.toList failure) p.cursor
    | .ok _ p =>
      let children := p.frame.values.toList
      match d.finish outer p.extent p.cursor with
      | .ok padding c => finishStructure label start (children ++ padding) c
      | .error failure c => .error (inStructure label start c.pos children failure) c

end Decoder

end BinaryGrammar
