import BinaryGrammar.Proofs.Scanning
import BinaryGrammar.Proofs.Transcoding

/-!
# Framing texts

A decoder has to know where a text ends. Its bytes are followed by a code unit that does not occur
in it, or are filled up with zeros to a known length, or stand after their number. Written in one of
these ways and read back, a text is the same, whatever stands before it and after it.
-/

set_option autoImplicit false

namespace BinaryGrammar

/-! ## Numbers as bytes -/

namespace Bytes

/-- The bytes of a number of so many bytes, lowest first. -/
def littleBytes : Nat → Nat → List UInt8
  | 0, _ => []
  | width + 1, n => UInt8.ofNat (n % 256) :: littleBytes width (n / 256)

/-- The bytes that write a number of so many bytes. -/
def ofNat (big : Bool) (width n : Nat) : Bytes :=
  if big then (littleBytes width n).reverse.toArray else (littleBytes width n).toArray

theorem length_littleBytes : ∀ width n : Nat, (littleBytes width n).length = width := by
  intro width
  induction width with
  | zero =>
      intro n
      rfl
  | succ width ih =>
      intro n
      exact congrArg (· + 1) (ih (n / 256))

theorem size_ofNat (big : Bool) (width n : Nat) : (ofNat big width n).size = width := by
  unfold ofNat
  split
  · exact List.length_reverse.trans (length_littleBytes width n)
  · exact length_littleBytes width n

theorem toNat_littleBytes : ∀ {width n : Nat}, n < 256 ^ width →
    toNat false (littleBytes width n).toArray = n := by
  intro width
  induction width with
  | zero =>
      intro n hn
      have hzero : n = 0 := by omega
      rw [hzero]
      rfl
  | succ width ih =>
      intro n hn
      have hrest : n / 256 < 256 ^ width := by
        rw [Nat.pow_succ] at hn
        omega
      have hbyte : (UInt8.ofNat (n % 256)).toNat = n % 256 := Text.toNat_byte (by omega)
      have hvalue := ih hrest
      unfold toNat at hvalue ⊢
      rw [if_neg (by decide), List.foldr_toArray] at hvalue ⊢
      rw [littleBytes, List.foldr_cons, hvalue, hbyte]
      omega

/-- A number that has room is read back in either order. -/
theorem toNat_ofNat (big : Bool) {width n : Nat} (h : n < 256 ^ width) :
    toNat big (ofNat big width n) = n := by
  have hlittle := toNat_littleBytes h
  unfold ofNat
  cases big with
  | true =>
      rw [if_pos rfl]
      rw [toNat_little_eq_reverse, List.reverse_toArray] at hlittle
      exact hlittle
  | false =>
      rw [if_neg (by decide)]
      exact hlittle

/-- Bytes behind others are found there, whatever follows. -/
theorem slice_behind (front bytes rest : Bytes) :
    slice (front ++ (bytes ++ rest)) front.size bytes.size = bytes := by
  have hslice := slice_append_right front (bytes ++ rest) 0 bytes.size
  rw [Nat.zero_add] at hslice
  rw [hslice]
  unfold slice
  rw [extract_append_of_le (by omega), Array.extract_eq_self_of_le (by omega)]

end Bytes

/-- A field of whole bytes. -/
theorem Value.leaf_whole {i offset count : Nat} {payload : Payload} :
    Value.leaf i (8 * offset) (8 * (offset + count)) payload =
      { element := i, offset, length := count, payload } := by
  have hoffset : 8 * offset / 8 = offset := by omega
  have hlength : Word.bytesOfBits (8 * (offset + count)) - offset = count := by
    unfold Word.bytesOfBits
    omega
  unfold Value.leaf
  dsimp only
  rw [hoffset, hlength, if_pos (by omega)]

namespace Decoder

/-! ## Ends of texts -/

/-- Zeros after bytes without a unit of zeros are cut off again, also where they end within a
unit. -/
theorem beforeZeros_append {width : Nat} {b : Bytes} (hwidth : 0 < width)
    (hwhole : b.size % width = 0)
    (hnone : b.findUnit? width (b.size / width) (·.all (· == 0)) = none) (n : Nat) :
    beforeZeros width (b ++ Array.replicate n 0) = b := by
  have hsize : b.size / width * width = b.size := Nat.div_mul_cancel (Nat.dvd_of_mod_eq_zero hwhole)
  have hcount : ((b ++ Array.replicate n (0 : UInt8)).size + width - 1) / width =
      b.size / width + (n + width - 1) / width := by
    have hsum : (b ++ Array.replicate n (0 : UInt8)).size + width - 1 =
        n + width - 1 + b.size / width * width := by
      rw [Array.size_append, Array.size_replicate, hsize]
      omega
    rw [hsum, Nat.add_mul_div_right _ _ hwidth, Nat.add_comm]
  unfold beforeZeros
  rw [hcount, Bytes.findUnit?_append hwhole, hnone, Option.none_or]
  by_cases hn : n = 0
  · -- there are no zeros
    have hunits : (n + width - 1) / width = 0 := Nat.div_eq_of_lt (by omega)
    rw [hunits, hn]
    exact Array.append_empty
  · -- the zeros begin with a unit that is one of zeros, whole or not
    have hunits : 0 < (n + width - 1) / width := Nat.div_pos (by omega) hwidth
    have hzeros : (Bytes.unitAt (Array.replicate n 0) width 0).all (· == 0) = true := by
      unfold Bytes.unitAt
      rw [Array.extract_replicate, Array.all_eq_true]
      intro k hk
      rw [Array.getElem_replicate]
      rfl
    have hfound : Bytes.findUnit? (Array.replicate n 0) width ((n + width - 1) / width)
        (·.all (· == 0)) = some 0 := by
      unfold Bytes.findUnit?
      rw [List.find?_range_eq_some]
      exact ⟨hzeros, List.mem_range.mpr hunits, fun _ hlt => absurd hlt (Nat.not_lt_zero _)⟩
    rw [hfound]
    dsimp only [Option.map_some]
    rw [Nat.add_zero, hsize, Bytes.extract_append_of_le (Nat.le_refl _), Array.extract_size]

/-- The first unit that is the terminator ends the text. -/
theorem Scan.whole_terminated {terminator b rest : Bytes} (hunit : 0 < terminator.size)
    (hwhole : b.size % terminator.size = 0)
    (hnone : b.findUnit? terminator.size (b.size / terminator.size) (· == terminator) = none) :
    Scan.whole terminator (b ++ (terminator ++ rest)) = ⟨b, b.size + terminator.size⟩ := by
  have hself : terminator.size % terminator.size = 0 := Nat.mod_self _
  have hfound : terminator.findUnit? terminator.size (terminator.size / terminator.size)
      (· == terminator) = some 0 := by
    have hat : Bytes.unitAt terminator terminator.size 0 = terminator := by
      unfold Bytes.unitAt
      rw [Nat.zero_mul, Nat.zero_add, Array.extract_size]
    rw [Nat.div_self hunit]
    unfold Bytes.findUnit?
    rw [List.range_one, List.find?_singleton, hat, if_pos BEq.rfl]
  rw [whole_append_of_none hunit hwhole hnone, whole_append_of_some hunit hself hfound]
  unfold Scan.after
  rw [Nat.zero_mul, Nat.zero_add, Array.extract_zero, Array.append_empty]

/-! ## Frames -/

variable {σ : Type}

/-- The bytes that a text is framed in, for an element that is a string: how the string tells its
end, and what is needed for a text to be told from what follows. -/
inductive Framed (d : Decoder σ) (ctx : Context) (i : Nat) (body : StringBody)
    (encoding : Text.Encoding) (s : String) : Bytes → Prop
  /-- A unit of zeros, which does not occur in the text, ends it. -/
  | zeroTerminated : d.document.stringType i = .zeroTerminated → d.document.length i = none →
    (∀ u ∈ encoding.units s, u.toArray ≠ Text.Encoding.unit (some encoding) 0) →
    Framed d ctx i body encoding s
      (encoding.encode s ++ Text.Encoding.unit (some encoding) 0)
  /-- The unit of the delimiter, which does not occur in the text, ends it. -/
  | delimiterTerminated : d.document.stringType i = .delimiterTerminated →
    d.document.length i = none →
    (∀ u ∈ encoding.units s,
      u.toArray ≠ Text.Encoding.unit (some encoding) (body.delimiter.getD 0)) →
    Framed d ctx i body encoding s
      (encoding.encode s ++ Text.Encoding.unit (some encoding) (body.delimiter.getD 0))
  /-- The text has no U+0000 and is filled up with zeros to the length of the element. -/
  | fixedLength {length : Nat} : d.document.stringType i = .fixedLength →
    d.lengthBytes ctx i = .ok length → (encoding.encode s).size ≤ length → '\x00' ∉ s.toList →
    Framed d ctx i body encoding s
      (encoding.encode s ++ Array.replicate (length - (encoding.encode s).size) 0)
  /-- The number of bytes, itself as wide as the element is long, comes before the text. -/
  | pascal {width : Nat} {big : Bool} : d.document.stringType i = .pascal →
    d.lengthBytes ctx i = .ok width → 1 ≤ width → width ≤ 8 → d.bigEndian i = .ok big →
    (encoding.encode s).size < 256 ^ width →
    Framed d ctx i body encoding s
      (Bytes.ofNat big width (encoding.encode s).size ++ encoding.encode s)

variable {d : Decoder σ} {I : σ → Prop} {ctx : Context} {i : Nat} {c : Cursor σ} {body : StringBody}
  {encoding : Text.Encoding} {s : String} {front bytes rest : Bytes}

open Reader (Delivers)

/-- Behind other bytes, a scan without a bound finds a text that is ended by a unit it does not
have. -/
theorem Scan.whole_behind {terminator : Bytes}
    (hdata : (front ++ (encoding.encode s ++ terminator ++ rest)).size < Word.modulus)
    (hunit : terminator.size = Text.Encoding.unitWidth (some encoding))
    (habsent : ∀ u ∈ encoding.units s, u.toArray ≠ terminator) :
    Scan.whole terminator (Bytes.slice (front ++ (encoding.encode s ++ terminator ++ rest))
      front.size wholeSpace) = ⟨encoding.encode s, (encoding.encode s ++ terminator).size⟩ := by
  have hwidth := encoding.unitWidth_cases
  have hnone : (encoding.encode s).findUnit? terminator.size
      ((encoding.encode s).size / terminator.size) (· == terminator) = none := by
    rw [hunit]
    exact Text.Encoding.findUnit?_encode fun u hu => beq_false_of_ne (habsent u hu)
  have hwhole : (encoding.encode s).size % terminator.size = 0 := by
    rw [hunit]
    exact encoding.encode_mod_unitWidth s
  have hslice : Bytes.slice (front ++ (encoding.encode s ++ terminator ++ rest)) front.size
      wholeSpace = encoding.encode s ++ (terminator ++ rest) := by
    have hright := Bytes.slice_append_right front (encoding.encode s ++ terminator ++ rest) 0
      wholeSpace
    rw [Nat.zero_add] at hright
    rw [hright, Array.append_assoc]
    rw [Array.size_append, Array.append_assoc] at hdata
    exact Array.extract_eq_self_of_le (by unfold wholeSpace; omega)
  rw [hslice, Scan.whole_terminated (by omega) hwhole hnone, Array.size_append]

section

variable (hc : I c.source) (hpos : c.pos = 8 * front.size) (hlimit : ctx.limit = none)
include hc hpos hlimit

/-- Bytes at the cursor are taken. -/
theorem take_behind (hserves : d.source.Serves (front ++ (bytes ++ rest)) I)
    (hword : 8 * (front.size + bytes.size) < Word.modulus) :
    Delivers I (d.take ctx i bytes.size) c bytes (8 * (front.size + bytes.size)) := by
  have hoffset : c.pos / 8 = front.size := by omega
  have hin : c.pos / 8 + bytes.size ≤ (front ++ (bytes ++ rest)).size := by
    rw [Array.size_append, Array.size_append]
    omega
  have htake := take_delivers (i := i) hserves hc hlimit (by omega) hin (by omega)
  rw [hoffset, Bytes.slice_behind, hpos, ← Nat.mul_add] at htake
  exact htake

/-- A text that a unit ends is taken up to this unit. -/
theorem takeDelimited_behind {terminator : Bytes}
    (hserves : d.source.Serves (front ++ (encoding.encode s ++ terminator ++ rest)) I)
    (hdata : (front ++ (encoding.encode s ++ terminator ++ rest)).size < Word.modulus)
    (hword : 8 * (front.size + (encoding.encode s ++ terminator).size) < Word.modulus)
    (hlength : d.document.length i = none)
    (hunit : terminator.size = Text.Encoding.unitWidth (some encoding))
    (habsent : ∀ u ∈ encoding.units s, u.toArray ≠ terminator) :
    Delivers I (d.takeDelimited ctx i terminator) c (encoding.encode s)
      (8 * (front.size + (encoding.encode s ++ terminator).size)) := by
  have hwidth := encoding.unitWidth_cases
  rw [← hunit] at hwidth
  have hscan := Scan.whole_behind hdata hunit habsent
  rw [show front.size = c.pos / 8 by omega] at hscan
  have hmax : d.lengthBytes? ctx i = .ok none := by
    unfold lengthBytes? lengthBits?
    rw [hlength]
    rfl
  have htake := takeTerminated_delivers hserves hc hlimit hwidth hdata
    (by rw [hscan, Array.size_append]; dsimp only; omega) (by rw [hscan]; dsimp only; omega)
  rw [hscan, hpos, ← Nat.mul_add] at htake
  unfold takeDelimited
  exact .ofExcept_bind hmax htake

/-- A text without U+0000 is taken without the zeros after it. -/
theorem takeFixed_behind {length : Nat} (hlength : d.lengthBytes ctx i = .ok length)
    (hle : (encoding.encode s).size ≤ length) (hencodable : encoding.Encodable s)
    (hnul : '\x00' ∉ s.toList)
    (hbytes : bytes = encoding.encode s ++ Array.replicate (length - (encoding.encode s).size) 0)
    (hserves : d.source.Serves (front ++ (bytes ++ rest)) I)
    (hword : 8 * (front.size + bytes.size) < Word.modulus) :
    Delivers I (d.takeFixed ctx i (Text.Encoding.unitWidth (some encoding))) c (encoding.encode s)
      (8 * (front.size + bytes.size)) := by
  have hwidth := encoding.unitWidth_cases
  have hsize : bytes.size = length := by
    rw [hbytes, Array.size_append, Array.size_replicate]
    omega
  have hnone : (encoding.encode s).findUnit? (Text.Encoding.unitWidth (some encoding))
      ((encoding.encode s).size / Text.Encoding.unitWidth (some encoding))
      (·.all (· == 0)) = none :=
    Text.Encoding.findUnit?_encode fun u hu => Text.Encoding.units_ne_zeros hencodable hnul hu
  have htake := take_behind (i := i) hc hpos hlimit hserves hword
  rw [hsize] at htake ⊢
  unfold takeFixed
  refine .ofExcept_bind hlength (.bind htake ?_)
  intro c' hpos' hc'
  rw [hbytes, beforeZeros_append (by omega) (encoding.encode_mod_unitWidth s) hnone, ← hpos']
  exact .pure hc'

/-- Bytes that stand after their number are taken. -/
theorem takeCounted_behind {width : Nat} {big : Bool} {count : Bytes}
    (hlength : d.lengthBytes ctx i = .ok width) (hwidth : 1 ≤ width ∧ width ≤ 8)
    (hbig : d.bigEndian i = .ok big) (hsize : count.size = width)
    (hcount : count.toNat big = bytes.size)
    (hserves : d.source.Serves (front ++ (count ++ bytes ++ rest)) I)
    (hword : 8 * (front.size + (count ++ bytes).size) < Word.modulus) :
    Delivers I (d.takeCounted ctx i) c bytes (8 * (front.size + (count ++ bytes).size)) := by
  rw [Array.append_assoc] at hserves
  rw [Array.size_append] at hword ⊢
  -- the number comes first, and what it counts stands behind it
  have hbehind : d.source.Serves (front ++ count ++ (bytes ++ rest)) I := by
    rw [Array.append_assoc]
    exact hserves
  unfold takeCounted
  refine .ofExcept_bind hlength (.check_bind (.require _ _) hwidth (.ofExcept_bind hbig ?_))
  rw [← hsize]
  refine .bind (take_behind hc hpos hlimit hserves (by omega)) ?_
  intro c' hpos' hc'
  have hnext : c'.pos = 8 * (front ++ count).size := by rw [Array.size_append, hpos']
  have htake := take_behind (i := i) hc' hnext hlimit hbehind (by rw [Array.size_append]; omega)
  rw [Array.size_append, Nat.add_assoc] at htake
  rw [hcount]
  exact htake

/-- **The bytes of a framed text are taken**, with their frame. -/
theorem takeString_framed (hframed : Framed d ctx i body encoding s bytes)
    (hencodable : encoding.Encodable s) (hserves : d.source.Serves (front ++ (bytes ++ rest)) I)
    (hdata : (front ++ (bytes ++ rest)).size < Word.modulus)
    (hword : 8 * (front.size + bytes.size) < Word.modulus) :
    Delivers I (d.takeString ctx i body (some encoding)) c (encoding.encode s)
      (8 * (front.size + bytes.size)) := by
  unfold takeString
  cases hframed with
  | zeroTerminated htype hlength habsent =>
      rw [htype]
      exact takeDelimited_behind hc hpos hlimit hserves hdata hword hlength
        (encoding.size_unit _) habsent
  | delimiterTerminated htype hlength habsent =>
      rw [htype]
      exact takeDelimited_behind hc hpos hlimit hserves hdata hword hlength
        (encoding.size_unit _) habsent
  | fixedLength htype hlength hle hnul =>
      rw [htype]
      exact takeFixed_behind hc hpos hlimit hlength hle hencodable hnul rfl hserves hword
  | pascal htype hlength hlow hhigh hbig hroom =>
      rw [htype]
      exact takeCounted_behind hc hpos hlimit hlength ⟨hlow, hhigh⟩ hbig (Bytes.size_ofNat ..)
        (Bytes.toNat_ofNat _ hroom) hserves hword

end

/-- **Texts are read back from their frames.** A string without fixed values, in any encoding and
framed in any of the four ways, is read where it stands in the data as long as no structure of fixed
length is around it. The value is the text that was written, and covers the bytes of the frame and
no others; the cursor is after them. Places in the data have to be such as a word can count. -/
theorem readElement_framed (hserves : d.source.Serves (front ++ (bytes ++ rest)) I)
    (hc : I c.source) (hpos : c.pos = 8 * front.size) (hlimit : ctx.limit = none)
    (hbody : (d.document.element i).body = .string body) (hvalues : body.values = [])
    (hname : Text.Encoding.ofName? (d.document.encoding i) = some encoding)
    (hencodable : encoding.Encodable s) (hframed : Framed d ctx i body encoding s bytes)
    (hdata : (front ++ (bytes ++ rest)).size < Word.modulus)
    (hword : 8 * (front.size + bytes.size) < Word.modulus) (levels : Nat) :
    Delivers I (d.readElement (levels + 1) ctx i) c
      { element := i, offset := front.size, length := bytes.size, payload := .text s }
      (8 * (front.size + bytes.size)) := by
  have htake := takeString_framed hc hpos hlimit hframed hencodable hserves hdata hword
  have hvalue : Value.leaf i (8 * front.size) (8 * (front.size + bytes.size)) (.text s) =
      { element := i, offset := front.size, length := bytes.size, payload := .text s } :=
    Value.leaf_whole
  have htext : decodeText (d.document.encoding i) (some encoding) (encoding.encode s) = .ok s := by
    unfold decodeText
    dsimp only
    rw [Text.Encoding.decode_encode hencodable]
  refine readElement_delivers ?_
  unfold readBody
  rw [hbody]
  dsimp only
  unfold readString
  refine .aligned_bind (by omega) ?_
  change Delivers I (d.takeString ctx i body (Text.Encoding.ofName? (d.document.encoding i)) >>= _)
    c _ _
  rw [hname]
  refine .bind htake ?_
  intro c' hpos' hc'
  refine .ofExcept_bind htext ?_
  rw [← hvalue, ← hpos', hpos]
  exact finish_match_delivers hc' (by omega) (by unfold Word.modulus at hword ⊢; omega)
    (Or.inr fun v => by unfold StringBody.accepts; rw [hvalues]; rfl)

/-! ## Two texts behind a byte

A text in UTF-16, low bytes first, ends with a zero; another in ISO-8859-1 stands after its number
of two bytes. -/

/-- The grammar of the two strings. -/
def textsDecoder : Decoder Bytes where
  document :=
    .ofParts "" {}
      #[{ body := .string { encoding := some "UTF-16LE" } },
        { body := .string
            { type := some .pascal, length := some (.constant 2),
              encoding := some "ISO-8859-1" } }] #[]
  source := .plain

/-- The first text has a character that takes two code units. -/
theorem readElement_framed_texts :
    (∃ c, textsDecoder.read 0 { pos := 8, source := #[7, 0x61, 0, 0x3D, 0xD8, 0, 0xDE, 0, 0, 7] } =
      .ok { element := 0, offset := 1, length := 8, payload := .text "a😀" } c ∧ c.pos = 72) ∧
    (∃ c, textsDecoder.read 1 { pos := 8, source := #[7, 2, 0, 0x61, 0xE9, 7] } =
      .ok { element := 1, offset := 1, length := 4, payload := .text "aé" } c ∧ c.pos = 40) := by
  constructor
  · have hunits :
        (Text.Encoding.utf16 false).units "a😀" = [[0x61, 0], [0x3D, 0xD8], [0, 0xDE]] := by
      cbv
    have hbytes : (Text.Encoding.utf16 false).encode "a😀" = #[0x61, 0, 0x3D, 0xD8, 0, 0xDE] := by
      cbv
    have habsent : ∀ u ∈ (Text.Encoding.utf16 false).units "a😀", u.toArray ≠ #[0, 0] := by
      rw [hunits]
      decide
    have hframed : Framed textsDecoder {} 0 { encoding := some "UTF-16LE" } (.utf16 false) "a😀"
        (#[0x61, 0, 0x3D, 0xD8, 0, 0xDE] ++ #[0, 0]) :=
      hbytes ▸ .zeroTerminated rfl rfl habsent
    have hserves : textsDecoder.source.Serves
        (#[7] ++ (#[0x61, 0, 0x3D, 0xD8, 0, 0xDE] ++ #[0, 0] ++ #[7]))
        (· = #[7, 0x61, 0, 0x3D, 0xD8, 0, 0xDE, 0, 0, 7]) := ByteSource.plain_serves _
    have hread : Delivers _ (textsDecoder.read 0)
        { pos := 8, source := #[7, 0x61, 0, 0x3D, 0xD8, 0, 0xDE, 0, 0, 7] } _ _ :=
      readElement_framed hserves rfl rfl rfl rfl rfl (by cbv) (fun _ _ => rfl) hframed (by decide)
        (by decide) 127
    obtain ⟨c, hrun, hpos, _⟩ := hread
    exact ⟨c, hrun, hpos⟩
  · have hbytes : Text.Encoding.latin1.encode "aé" = #[0x61, 0xE9] := by cbv
    have hchars : "aé".toList = ['a', 'é'] := by cbv
    have hencodable : Text.Encoding.latin1.Encodable "aé" := by
      intro c hc
      rw [hchars, List.mem_cons, List.mem_singleton] at hc
      rcases hc with rfl | rfl <;> cbv
    have hcount : Bytes.ofNat false 2 (Text.Encoding.latin1.encode "aé").size = #[2, 0] := by
      rw [hbytes]
      decide
    have hroom : (Text.Encoding.latin1.encode "aé").size < 256 ^ 2 := by
      rw [hbytes]
      decide
    have hframed : Framed textsDecoder {} 1
        { type := some .pascal, length := some (.constant 2), encoding := some "ISO-8859-1" }
        .latin1 "aé" (#[2, 0] ++ #[0x61, 0xE9]) := by
      rw [← hcount, ← hbytes]
      exact .pascal rfl rfl (by decide) (by decide) rfl hroom
    have hserves : textsDecoder.source.Serves (#[7] ++ (#[2, 0] ++ #[0x61, 0xE9] ++ #[7]))
        (· = #[7, 2, 0, 0x61, 0xE9, 7]) := ByteSource.plain_serves _
    have hread : Delivers _ (textsDecoder.read 1)
        { pos := 8, source := #[7, 2, 0, 0x61, 0xE9, 7] } _ _ :=
      readElement_framed hserves rfl rfl rfl rfl rfl (by cbv) hencodable hframed (by decide)
        (by decide) 127
    obtain ⟨c, hrun, hpos, _⟩ := hread
    exact ⟨c, hrun, hpos⟩

end Decoder

end BinaryGrammar
