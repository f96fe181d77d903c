import BinaryGrammar.Decode.Bytes
import BinaryGrammar.Decode.Match

/-!
# Reading fields

Numbers, strings, runs of bytes, offsets and fields of scripts: all elements that have no fields of
their own. A field that requires its fixed values and has none of them fails, and is kept as what
was decoded.
-/

set_option autoImplicit false

namespace BinaryGrammar.Decoder

variable {σ : Type}

/-- The value between a bit position and the cursor, which has not gone back. -/
def finishLeaf (i start : Nat) (payload : Payload) : Reader σ Value := do
  let stop ← Reader.pos
  Reader.requireWord (stop + 7)
  Reader.require (start ≤ stop) .overflow
  return .leaf i start stop payload

/-- The value itself if it is accepted or need not be. -/
def requireMatch (d : Decoder σ) (i : Nat) (accepted : Bool) (v : Value) : Reader σ Value :=
  if d.document.mustMatch i && !accepted then
    throw { cause := .mustMatch v.payload.shown, salvage := some v }
  else pure v

/-! ## Numbers -/

/-- Read an integer. -/
def readInteger (d : Decoder σ) (ctx : Context) (i bits : Nat) (big : Bool) : Reader σ Payload := do
  let raw ← d.takeInteger ctx i bits big
  return if d.document.signed i then .int (Word.signedOf bits raw) else .uint raw

/-- The floating-point number with a pattern of 32 or 64 bits. -/
def floatOf (bits pattern : Nat) : Binary64 :=
  if bits = 32 then .ofBinary32 pattern else ⟨pattern.toUInt64⟩

/-- Read a floating-point number. -/
def readFloat (d : Decoder σ) (ctx : Context) (i bits : Nat) (big : Bool) : Reader σ Payload := do
  Reader.require (bits = 32 ∨ bits = 64) (.malformed (.floatWidth bits))
  let bytes ← d.take ctx i (bits / 8)
  return .float (floatOf bits (bytes.toNat big))

/-- Read the payload of a number. -/
def takeNumber (d : Decoder σ) (ctx : Context) (i bits : Nat) (big : Bool) : Reader σ Payload :=
  match d.document.numberType i with
  | .integer => d.readInteger ctx i bits big
  | .float => d.readFloat ctx i bits big

/-- Read a number. -/
def readNumber (d : Decoder σ) (ctx : Context) (i : Nat) (body : NumberBody) : Reader σ Value := do
  let start ← Reader.pos
  let bits ← .ofExcept (d.lengthBits ctx i)
  let big ← .ofExcept (d.bigEndian i)
  let payload ← d.takeNumber ctx i bits big
  let v ← finishLeaf i start payload
  d.requireMatch i (body.accepts v) v

/-- Read an offset. -/
def readOffset (d : Decoder σ) (ctx : Context) (i : Nat) : Reader σ Value := do
  let start ← Reader.pos
  let bits ← .ofExcept (d.lengthBits ctx i)
  let big ← .ofExcept (d.bigEndian i)
  let raw ← d.takeInteger ctx i bits big
  finishLeaf i start (.offset raw)

/-! ## Strings and bytes -/

/-- The bytes before the first unit of zeros, in units of so many bytes. -/
def beforeZeros (width : Nat) (bytes : Bytes) : Bytes :=
  match bytes.findUnit? width ((bytes.size + width - 1) / width) (·.all (· == 0)) with
  | some i => bytes.extract 0 (i * width)
  | none => bytes

/-- Read the bytes of a string of fixed length. -/
def takeFixed (d : Decoder σ) (ctx : Context) (i width : Nat) : Reader σ Bytes := do
  let length ← .ofExcept (d.lengthBytes ctx i)
  let bytes ← d.take ctx i length
  return beforeZeros width bytes

/-- Read the bytes of a string that stand after their number. -/
def takeCounted (d : Decoder σ) (ctx : Context) (i : Nat) : Reader σ Bytes := do
  let width ← .ofExcept (d.lengthBytes ctx i)
  Reader.require (1 ≤ width ∧ width ≤ 8) (.malformed (.countWidth width))
  let big ← .ofExcept (d.bigEndian i)
  let count ← d.take ctx i width
  d.take ctx i (count.toNat big)

/-- Read the bytes of a string that a delimiter ends. -/
def takeDelimited (d : Decoder σ) (ctx : Context) (i : Nat) (terminator : Bytes) :
    Reader σ Bytes := do
  let max ← .ofExcept (d.lengthBytes? ctx i)
  d.takeTerminated ctx terminator max

/-- Read the bytes of a string. -/
def takeString (d : Decoder σ) (ctx : Context) (i : Nat) (body : StringBody)
    (encoding : Option Text.Encoding) : Reader σ Bytes :=
  match d.document.stringType i with
  | .fixedLength => d.takeFixed ctx i (Text.Encoding.unitWidth encoding)
  | .pascal => d.takeCounted ctx i
  | .zeroTerminated => d.takeDelimited ctx i (Text.Encoding.unit encoding 0)
  | .delimiterTerminated =>
    d.takeDelimited ctx i (Text.Encoding.unit encoding (body.delimiter.getD 0))

/-- The text that some bytes write in the encoding with a name. -/
def decodeText (name : String) (encoding : Option Text.Encoding) (bytes : Bytes) :
    Except Cause String :=
  match encoding with
  | none => .error (.unsupported (.encoding name))
  | some encoding =>
    match encoding.decode bytes with
    | .ok s => .ok s
    | .error fault => .error (.malformed (.text fault))

/-- Read a string. -/
def readString (d : Decoder σ) (ctx : Context) (i : Nat) (body : StringBody) : Reader σ Value := do
  Reader.ensureAligned
  let start ← Reader.pos
  let name := d.document.encoding i
  let encoding := Text.Encoding.ofName? name
  let bytes ← d.takeString ctx i body encoding
  let text ← .ofExcept (decodeText name encoding bytes)
  let v ← finishLeaf i start (.text text)
  d.requireMatch i (body.accepts v) v

/-- Read a run of bytes. -/
def readBinary (d : Decoder σ) (ctx : Context) (i : Nat) (body : BinaryBody) : Reader σ Value := do
  let start ← Reader.pos
  let length ← .ofExcept (d.lengthBytes ctx i)
  let bytes ← d.take ctx i length
  let v ← finishLeaf i start (.bytes bytes)
  d.requireMatch i (body.accepts v) v

/-! ## Fields of scripts -/

/-- Run the script of a field. -/
def runScript (d : Decoder σ) (request : ScriptRequest) : Reader σ ScriptValue := fun c =>
  match d.scripts.run d.source request c.source with
  | (.ok v, s) => .ok v { c with source := s }
  | (.error cause, s) => .error { cause := .script cause } { c with source := s }

/-- Fail when a field of so many bytes ends after the enclosing structure. -/
def requireInside (ctx : Context) (start length stop : Nat) : Reader σ Unit :=
  match ctx.limit with
  | some limit =>
    Reader.require (Word.mulSaturating stop 8 ≤ limit)
      (.overrun (start / 8) length ((limit - start) / 8))
  | none => pure ()

/-- Fail when a field of so many bytes ends after the data, if their number is known. -/
def requireData (size : Option Nat) (offset length stop : Nat) : Reader σ Unit :=
  match size with
  | some size => Reader.require (stop ≤ size) (.endOfInput offset length (size - offset))
  | none => pure ()

/-- Cover a field with what a script made of it. -/
def acceptScript (d : Decoder σ) (ctx : Context) (i start : Nat) (out : ScriptValue) :
    Reader σ Value :=
  match Word.add? (start / 8) out.length with
  | none => Reader.fail (.malformed (.scriptLength out.length))
  | some stop => do
    requireInside ctx start out.length stop
    let size ← d.size
    requireData size (start / 8) out.length stop
    Reader.requireWord (stop * 8)
    Reader.moveTo (stop * 8)
    finishLeaf i start (.custom out.display)

/-- Read a field by its script. -/
def readCustom (d : Decoder σ) (ctx : Context) (i : Nat) (body : CustomBody) : Reader σ Value := do
  Reader.ensureAligned
  match body.script.bind (·.target) with
  | none => Reader.fail (.danglingReference "script")
  | some script =>
    let start ← Reader.pos
    let hint ← .ofExcept (d.lengthBytes? ctx i)
    let out ← d.runScript
      { script := d.document.script script
        element := (d.document.element i).name
        offset := start / 8
        hint }
    d.acceptScript ctx i start out

end BinaryGrammar.Decoder
