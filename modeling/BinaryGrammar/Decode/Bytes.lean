import BinaryGrammar.Decode.Decoder

/-!
# Taking bytes and bits

Three ways to take data at the cursor: so many whole bytes, so many bits, and the bytes up to a
terminator. Bytes are fetched from the source in chunks and terminators are looked for in windows,
so that a length in the data never makes the decoder ask for more than the data hold.
-/

set_option autoImplicit false

namespace BinaryGrammar

namespace Bytes

/-- The number that some bytes write. -/
def toNat (big : Bool) (bytes : Bytes) : Nat :=
  if big then bytes.foldl (fun n b => n * 256 + b.toNat) 0
  else bytes.foldr (fun b n => n * 256 + b.toNat) 0

/-- The bit with a number; bit 0 is the highest bit of the first byte. -/
def bit (bytes : Bytes) (i : Nat) : Nat := ((bytes.getD (i / 8) 0).toNat >>> (7 - i % 8)) % 2

/-- The number that some bits write, highest first. -/
def bitsToNat (bytes : Bytes) (first count : Nat) : Nat :=
  (List.range count).foldl (fun n k => n * 2 + bytes.bit (first + k)) 0

/-- The unit with a number, in units of so many bytes. -/
def unitAt (bytes : Bytes) (width i : Nat) : Bytes := bytes.extract (i * width) (i * width + width)

/-- The first of `count` units that satisfies a test, in units of so many bytes. -/
def findUnit? (bytes : Bytes) (width count : Nat) (p : Bytes → Bool) : Option Nat :=
  (List.range count).find? fun i => p (bytes.unitAt width i)

end Bytes

namespace Decoder

variable {σ : Type}

/-! ## Bytes -/

/-- The largest number of bytes fetched at a time. -/
def chunk : Nat := 64 * 1024

/-- Fetch `count` bytes at an offset after those in `got`, in at most so many chunks; fewer only
where the data end. -/
def fetchChunks (d : Decoder σ) (offset count : Nat) : Nat → Bytes → Reader σ Bytes
  | 0, got => pure got
  | chunks + 1, got => do
    if got.size < count then
      let want := min (count - got.size) chunk
      let more ← d.fetch (offset + got.size) want
      let got := got ++ more
      if more.size < want then pure got else d.fetchChunks offset count chunks got
    else pure got

/-- Fail when the enclosing structure has less than `count` bytes left. -/
def requireRoom (ctx : Context) (pos count : Nat) : Reader σ Unit :=
  match ctx.room pos with
  | some room => Reader.require (count ≤ room) (.overrun (pos / 8) count room)
  | none => pure ()

/-- The failure of an element whose `count` bytes are not all there; those that are there are
kept. -/
def shortfall (i offset count : Nat) (bytes : Bytes) : Failure where
  cause := .endOfInput offset count bytes.size
  salvage :=
    if bytes.size = 0 then none
    else some { element := i, offset, length := bytes.size, payload := .bytes bytes }

/-- Take `count` bytes for an element. -/
def take (d : Decoder σ) (ctx : Context) (i count : Nat) : Reader σ Bytes := do
  Reader.ensureAligned
  let pos ← Reader.pos
  requireRoom ctx pos count
  let bytes ← d.fetchChunks (pos / 8) count (count / chunk + 1) #[]
  if bytes.size < count then throw (shortfall i (pos / 8) count bytes)
  else
    Reader.requireWord (pos + count * 8)
    Reader.moveTo (pos + count * 8)
    return bytes

/-! ## Bits -/

/-- Fail when the enclosing structure ends before a bit position. -/
def requireBits (ctx : Context) (pos stop needed : Nat) : Reader σ Unit :=
  match ctx.limit with
  | some limit =>
    Reader.require (stop ≤ limit) (.overrun (pos / 8) needed ((limit - pos) / 8))
  | none => pure ()

/-- Take `count` bits as a number. -/
def takeBits (d : Decoder σ) (ctx : Context) (count : Nat) : Reader σ Nat := do
  let pos ← Reader.pos
  let stop := pos + count
  Reader.requireWord (stop + 7)
  let needed := Word.bytesOfBits stop - pos / 8
  requireBits ctx pos stop needed
  let bytes ← d.fetch (pos / 8) needed
  Reader.require (needed ≤ bytes.size) (.endOfInput (pos / 8) needed bytes.size)
  Reader.moveTo stop
  return bytes.bitsToNat (pos % 8) (stop - pos)

/-- Take an unsigned integer of so many bits. Byte order matters for whole bytes only. -/
def takeInteger (d : Decoder σ) (ctx : Context) (i bits : Nat) (big : Bool) : Reader σ Nat := do
  Reader.require (1 ≤ bits ∧ bits ≤ 64) (.malformed (.integerWidth bits))
  let pos ← Reader.pos
  if pos % 8 = 0 ∧ bits % 8 = 0 then
    let bytes ← d.take ctx i (bits / 8)
    return bytes.toNat big
  else d.takeBits ctx bits

/-! ## Terminated bytes -/

/-- The largest number of bytes in which a terminator is looked for at a time. -/
def window : Nat := 256

/-- Bytes before a terminator, and the number of bytes up to its end. -/
structure Scan where
  text : Bytes
  consumed : Nat

/-- Look for a terminator from an offset on, in at most `cap` bytes and so many windows, after the
bytes in `text`. Where there is none the scan ends with the last whole unit. -/
def scan (d : Decoder σ) (terminator : Bytes) (offset cap : Nat) : Nat → Bytes → Reader σ Scan
  | 0, text => pure ⟨text, text.size⟩
  | windows + 1, text => do
    let unit := terminator.size
    Reader.require (text.size ≤ cap) .overflow
    let want := min (cap - text.size) window
    if want < unit then pure ⟨text, text.size⟩
    else
      let got ← d.fetch (offset + text.size) want
      let units := got.size / unit
      match got.findUnit? unit units (· == terminator) with
      | some i =>
        Reader.requireWord (text.size + i * unit + unit)
        pure ⟨text ++ got.extract 0 (i * unit), text.size + i * unit + unit⟩
      | none =>
        Reader.requireWord (text.size + units * unit)
        let text := text ++ got.extract 0 (units * unit)
        if got.size < want then pure ⟨text, text.size⟩
        else d.scan terminator offset cap windows text

/-- The number of bytes to scan when neither an element nor a structure bounds them: no source
holds more. -/
def wholeSpace : Nat := Word.modulus

/-- The bytes that may be scanned: at most `max`, and at most what the enclosing structure has
left. -/
def scanCap (max room : Option Nat) : Nat :=
  min (max.getD wholeSpace) (room.getD wholeSpace)

/-- The failure to take anything at an offset where a unit of so many bytes is needed. -/
def nothingThere (room : Option Nat) (offset unit : Nat) : Cause :=
  if room = some 0 then .overrun offset unit 0 else .endOfInput offset unit 0

/-- Take the bytes before a terminator, and the terminator. Without one the bytes go on to the
bound, the end of the enclosing structure, or the end of the data; unless the bound is zero there
has to be something. -/
def takeTerminated (d : Decoder σ) (ctx : Context) (terminator : Bytes) (max : Option Nat) :
    Reader σ Bytes := do
  let pos ← Reader.pos
  let room := ctx.room pos
  let cap := scanCap max room
  let found ← d.scan terminator (pos / 8) cap (cap / window + 2) #[]
  Reader.require (found.consumed ≠ 0 ∨ max = some 0) (nothingThere room (pos / 8) terminator.size)
  Reader.requireWord (pos + found.consumed * 8)
  Reader.moveTo (pos + found.consumed * 8)
  return found.text

end Decoder

end BinaryGrammar
