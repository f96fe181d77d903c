import BinaryGrammar.Proofs.Bits
import BinaryGrammar.Proofs.Keeping
import BinaryGrammar.Proofs.Tiling

/-!
# Payloads

A source copies some data if all that it gives at an offset stands there in the data. Over such a
source a field can be read once more from its place alone: an integer is what the bits of its place
write, in the byte order of its element, and a run of bytes is the part of the data that it covers.

Integers are fetched in two ways, by bytes where they begin and end with a byte and by bits
otherwise. For whole bytes with the highest first the choice makes no difference.
-/

set_option autoImplicit false

namespace BinaryGrammar

/-! ## Sources that copy data -/

namespace ByteSource

variable {σ : Type}

/-- The bytes stand in the data at an offset. -/
def CopyAt (data : Bytes) (offset : Nat) (bytes : Bytes) : Prop :=
  bytes = Bytes.slice data offset bytes.size

/-- In the states `I`, which are never left, all that a source gives is copied from the data. -/
structure Copies (src : ByteSource σ) (data : Bytes) (I : σ → Prop) : Prop where
  stays : src.Stays I
  copy : ∀ {s s' : σ} {offset count : Nat} {bytes : Bytes}, I s →
    src.readAt s offset count = (.bytes bytes, s') → CopyAt data offset bytes

theorem slice_copyAt (data : Bytes) (offset count : Nat) :
    CopyAt data offset (Bytes.slice data offset count) := by
  unfold CopyAt Bytes.slice
  refine Array.ext ?_ fun k hk hk' => ?_
  · simp only [Array.size_extract]
    omega
  · rw [Array.getElem_extract, Array.getElem_extract]

theorem plain_copies (data : Bytes) : plain.Copies data (· = data) where
  stays := fun hs hread => by cases hread; exact hs
  copy := fun hs hread => by
    cases hread
    rw [hs]
    exact slice_copyAt ..

namespace CopyAt

variable {data got more : Bytes} {offset : Nat}

theorem insideAt (h : CopyAt data offset got) : InsideAt data.size offset got := by
  have hsize := congrArg Array.size h
  unfold Bytes.slice at hsize
  rw [Array.size_extract] at hsize
  unfold InsideAt
  omega

theorem append (h : CopyAt data offset got) (h' : CopyAt data (offset + got.size) more) :
    CopyAt data offset (got ++ more) := by
  unfold CopyAt Bytes.slice at *
  rw [Array.size_append, ← Nat.add_assoc]
  calc got ++ more
      = data.extract offset (offset + got.size) ++
          data.extract (offset + got.size) (offset + got.size + more.size) := by rw [← h, ← h']
    _ = data.extract offset (offset + got.size + more.size) := by
        rw [Array.extract_append_extract]
        congr 1 <;> omega

end CopyAt

theorem Copies.yields {src : ByteSource σ} {data : Bytes} {I : σ → Prop} (h : src.Copies data I) :
    src.Yields I (CopyAt data) where
  stays := h.stays
  read := fun hs hread _ => h.copy hs hread
  none := fun _ => (Array.extract_eq_empty_of_le (Nat.min_le_left ..)).symm
  append := CopyAt.append

end ByteSource

namespace Decoder

open ByteSource (CopyAt)

variable {σ : Type} {d : Decoder σ} {data : Bytes} {I : σ → Prop} {ctx : Context} {i : Nat}
  {c c' : Cursor σ} {v w : Value}

/-! ## What is taken -/

theorem fetchChunks_size_le {offset count : Nat} : ∀ (chunks : Nat) {got bytes : Bytes}
    {c c' : Cursor σ}, d.fetchChunks offset count chunks got c = .ok bytes c' →
    got.size ≤ count → bytes.size ≤ count
  | 0, got, bytes, c, c', h, hgot => by cases h; exact hgot
  | chunks + 1, got, bytes, c, c', h, hgot => by
      unfold fetchChunks at h
      split at h
      · obtain ⟨more, c₁, hmore, h⟩ := Reader.bind_ok h
        have hwant := Nat.le_trans (fetch_size_le hmore) (Nat.min_le_left ..)
        have hnext : (got ++ more).size ≤ count := by
          rw [Array.size_append]
          omega
        split at h
        · cases h
          exact hnext
        · exact fetchChunks_size_le chunks h hnext
      · cases h
        exact hgot

section

variable (hcopies : d.source.Copies data I) (hc : InState I c)
include hcopies hc

/-- Bytes that are taken stand in the data at the cursor. -/
theorem take_copies {count : Nat} {bytes : Bytes} (h : d.take ctx i count c = .ok bytes c') :
    bytes = data.extract (c.pos / 8) (c.pos / 8 + count) ∧
      (count = 0 ∨ c.pos / 8 + count ≤ data.size) := by
  obtain ⟨_, _, c₁, hfetch, hcount, _⟩ := take_ok h
  have hcopy : CopyAt data (c.pos / 8) bytes :=
    fetchChunks_yields hcopies.yields _ hfetch hc (hcopies.yields.none _)
  have hsize : bytes.size = count :=
    Nat.le_antisymm (fetchChunks_size_le _ hfetch (Nat.zero_le _)) hcount
  have hinside := hcopy.insideAt
  unfold ByteSource.InsideAt at hinside
  unfold CopyAt Bytes.slice at hcopy
  rw [hsize] at hcopy hinside
  exact ⟨hcopy, hinside⟩

/-- Bits that are taken stand in the data at the cursor. -/
theorem takeBits_copies {bits raw : Nat} {big : Bool} (hbits : 1 ≤ bits ∧ bits ≤ 64)
    (horder : big = true ∨ c.pos % 8 ≠ 0 ∨ bits % 8 ≠ 0) (h : d.takeBits ctx bits c = .ok raw c') :
    c.pos + bits ≤ 8 * data.size ∧ c'.pos = c.pos + bits ∧
      raw = data.integerAt big c.pos (c.pos + bits) := by
  obtain ⟨_, _, bytes, c₁, hfetch, hneeded, hc', hraw⟩ := takeBits_ok h
  have hsize := fetch_size_le hfetch
  have hcopy : CopyAt data (c.pos / 8) bytes := fetch_yields hcopies.yields hc hfetch
  have hinside := hcopy.insideAt
  -- a bit at least is taken, so that a byte at least is there
  have hplace : c.pos + bits ≤ 8 * (c.pos / 8 + bytes.size) ∧
      c.pos / 8 + bytes.size ≤ data.size := by
    unfold ByteSource.InsideAt at hinside
    unfold Word.bytesOfBits at hneeded
    omega
  obtain ⟨hbytes, hlast⟩ := hplace
  refine ⟨by omega, by rw [hc'], ?_⟩
  rw [hraw, hcopy]
  exact Bytes.bitsToNat_slice rfl (by omega) hbytes hlast (horder.imp id fun h => by omega)

/-- Whichever way an integer is taken, it stands in the data at the cursor. -/
theorem takeInteger_copies {bits raw : Nat} {big : Bool}
    (h : d.takeInteger ctx i bits big c = .ok raw c') :
    1 ≤ bits ∧ bits ≤ 64 ∧ c.pos + bits ≤ 8 * data.size ∧ c'.pos = c.pos + bits ∧
      raw = data.integerAt big c.pos (c.pos + bits) := by
  unfold takeInteger at h
  obtain ⟨hbits, h⟩ := Reader.require_bind h
  rw [Reader.pos_bind] at h
  refine ⟨hbits.1, hbits.2, ?_⟩
  split at h
  · rename_i hal
    obtain ⟨bytes, c₁, htake, h⟩ := Reader.bind_ok h
    cases h
    obtain ⟨hbytes, hinside⟩ := take_copies hcopies hc htake
    obtain ⟨_, _, c₂, _, _, _, hc'⟩ := take_ok htake
    have hpos : c'.pos = c.pos + bits := by
      rw [hc']
      dsimp only
      omega
    refine ⟨by omega, hpos, ?_⟩
    rw [hbytes, show c.pos / 8 + bits / 8 = (c.pos + bits) / 8 by omega]
    exact Bytes.toNat_extract hal.1 (by omega) (by omega)
  · rename_i hal
    exact takeBits_copies hcopies hc hbits (by omega) h

end

/-! ## Two ways to take an integer -/

/-- A few bytes are fetched at once. -/
theorem fetchChunks_once {offset count : Nat} (hpos : 1 ≤ count) (hcount : count < chunk) :
    d.fetchChunks offset count (count / chunk + 1) #[] = d.fetch offset count := by
  have hwant : min (count - (#[] : Bytes).size) chunk = count :=
    Nat.min_eq_left (Nat.le_of_lt hcount)
  unfold fetchChunks
  rw [if_pos (show (#[] : Bytes).size < count from hpos), Nat.div_eq_of_lt hcount, hwant,
    show offset + (#[] : Bytes).size = offset from rfl]
  funext c
  cases h : d.fetch offset count c with
  | error failure c' => exact Reader.bind_of_error h
  | ok bytes c' =>
      rw [Reader.bind_of_ok h, Array.empty_append]
      split <;> rfl

/-- The bits of some whole bytes are in as many bytes. -/
theorem needed_eq {pos : Nat} (hal : pos % 8 = 0) (k : Nat) :
    Word.bytesOfBits (pos + 8 * k) - pos / 8 = k := by
  unfold Word.bytesOfBits
  omega

/-- Where a byte ends with a word, there is room to round up. -/
theorem add_seven_lt {pos : Nat} (hal : pos % 8 = 0) (hword : pos < Word.modulus) :
    pos + 7 < Word.modulus := by
  unfold Word.modulus at *
  omega

/-- Where an integer of a few whole bytes can be taken as bytes, it can be taken as bits. -/
theorem takeBits_of_take {k : Nat} {bytes : Bytes} (hk : 1 ≤ k ∧ k ≤ 8)
    (h : d.take ctx i k c = .ok bytes c') :
    d.takeBits ctx (8 * k) c = .ok (bytes.toNat true) c' := by
  obtain ⟨hal, hroom, c₁, hfetch, hcount, hword, hc'⟩ := take_ok h
  rw [fetchChunks_once hk.1 (by unfold chunk; omega)] at hfetch
  have hsize : bytes.size = k := Nat.le_antisymm (fetch_size_le hfetch) hcount
  have hlimit : ∀ l, ctx.limit = some l → c.pos + 8 * k ≤ l := by
    intro l hl
    have hroom := hroom ((l - c.pos) / 8) (by unfold Context.room; rw [hl]; rfl)
    omega
  unfold takeBits
  rw [Reader.pos_bind, Reader.requireWord_of (add_seven_lt (by omega) (by omega)),
    needed_eq hal k, Reader.bind_of_ok ((requireBits_checks ..).of hlimit c),
    Reader.bind_of_ok hfetch, Reader.bind_of_ok ((Reader.Checks.require _ _).of hcount _),
    Reader.moveTo_bind, hc', hal, Nat.mul_comm k 8, Nat.add_sub_cancel_left,
    Bytes.toNat_big_eq_bits, hsize]
  rfl

/-- And the other way round. -/
theorem take_of_takeBits {k n : Nat} (hk : 1 ≤ k ∧ k ≤ 8) (hal : c.pos % 8 = 0)
    (h : d.takeBits ctx (8 * k) c = .ok n c') : ∃ bytes, d.take ctx i k c = .ok bytes c' := by
  obtain ⟨hword, hlimit, bytes, c₁, hfetch, hcount, hc', _⟩ := takeBits_ok h
  rw [needed_eq hal k] at hfetch hcount
  have hroom : ∀ room, ctx.room c.pos = some room → k ≤ room := by
    intro room hroom
    unfold Context.room at hroom
    cases hl : ctx.limit with
    | none =>
        rw [hl] at hroom
        cases hroom
    | some l =>
        rw [hl] at hroom
        cases hroom
        have hle := hlimit l hl
        dsimp only
        omega
  refine ⟨bytes, ?_⟩
  unfold take
  have haligned : Reader.ensureAligned c = .ok () c := (Reader.Checks.require _ _).of hal c
  rw [Reader.bind_of_ok haligned, Reader.pos_bind,
    Reader.bind_of_ok ((requireRoom_checks ..).of hroom c),
    fetchChunks_once hk.1 (by unfold chunk; omega), Reader.bind_of_ok hfetch,
    if_neg (by omega), Reader.requireWord_of (by omega), Reader.moveTo_bind, hc', Nat.mul_comm k 8]
  rfl

/-- **For whole bytes with the highest first, the two ways to take an integer are the same.** -/
theorem take_iff_takeBits (hal : c.pos % 8 = 0) {k n : Nat} (hk : 1 ≤ k ∧ k ≤ 8) :
    (d.take ctx i k >>= fun bytes => pure (bytes.toNat true)) c = .ok n c' ↔
      d.takeBits ctx (8 * k) c = .ok n c' := by
  constructor
  · intro h
    obtain ⟨bytes, c₁, htake, h⟩ := Reader.bind_ok h
    cases h
    exact takeBits_of_take hk htake
  · intro h
    obtain ⟨bytes, htake⟩ := take_of_takeBits hk hal h
    cases (takeBits_of_take hk htake).symm.trans h
    rw [Reader.bind_of_ok htake]
    rfl

/-! ## What fields show -/

/-- The integer stands in the data at the place of a value, in the byte order of its element. -/
structure HoldsInteger (d : Decoder σ) (data : Bytes) (w : Value) (raw : Nat) : Prop where
  order : d.document.endian w.element ≠ .dynamic
  width : w.bitStart < w.bitStop ∧ w.bitStop ≤ w.bitStart + 64
  inside : w.bitStop ≤ 8 * data.size
  value : raw = data.integerAt (d.document.endian w.element = .big) w.bitStart w.bitStop

/-- What a field shows stands in the data at its place: an integer, with its sign if its element has
one, or a run of bytes. -/
def Shows (d : Decoder σ) (data : Bytes) (w : Value) : Prop :=
  match (d.document.element w.element).body with
  | .number _ =>
    d.document.numberType w.element = .integer → ∃ raw, HoldsInteger d data w raw ∧
      w.payload =
        if d.document.signed w.element then .int (Word.signedOf (w.bitStop - w.bitStart) raw)
        else .uint raw
  | .offset _ => ∃ raw, HoldsInteger d data w raw ∧ w.payload = .offset raw
  | .binary _ =>
    (w.length = 0 ∨ w.offset + w.length ≤ data.size) ∧
      w.payload = .bytes (data.extract w.offset (w.offset + w.length))
  | _ => True

theorem bigEndian_ok {big : Bool} (h : d.bigEndian i = .ok big) :
    d.document.endian i ≠ .dynamic ∧ big = decide (d.document.endian i = .big) := by
  unfold bigEndian at h
  cases horder : d.document.endian i with
  | big => rw [horder] at h; cases h; exact ⟨by decide, rfl⟩
  | little => rw [horder] at h; cases h; exact ⟨by decide, rfl⟩
  | dynamic => rw [horder] at h; cases h

section

variable (hcopies : d.source.Copies data I) (hc : InState I c)
include hcopies hc

/-- An integer that was taken stands in the data at the place of its field. -/
theorem takeInteger_holds {bits raw : Nat} {big : Bool} {payload : Payload}
    (hbig : d.bigEndian i = .ok big) (h : d.takeInteger ctx i bits big c = .ok raw c')
    (hv : v = .leaf i c.pos c'.pos payload) :
    HoldsInteger d data v raw ∧ v.bitStop - v.bitStart = bits := by
  obtain ⟨hpos, hmax, hinside, hstop, hraw⟩ := takeInteger_copies hcopies hc h
  obtain ⟨horder, hbig⟩ := bigEndian_ok hbig
  have hspans : v.Spans c.pos c'.pos := by
    rw [hv]
    exact Value.leaf_spans (by omega) (Or.inr (by omega))
  have helement : v.element = i := by rw [hv]; rfl
  rw [hstop] at hspans
  refine ⟨⟨?_, ?_, ?_, ?_⟩, ?_⟩
  · rw [helement]
    exact horder
  · rw [hspans.bitStart, hspans.bitStop]
    omega
  · rw [hspans.bitStop]
    exact hinside
  · rw [helement, hspans.bitStart, hspans.bitStop, ← hbig]
    exact hraw
  · rw [hspans.bitStart, hspans.bitStop]
    omega

/-- Bytes that were taken are those of their field. -/
theorem take_shown {count : Nat} {bytes : Bytes} {payload : Payload}
    (h : d.take ctx i count c = .ok bytes c') (hv : v = .leaf i c.pos c'.pos payload) :
    (v.length = 0 ∨ v.offset + v.length ≤ data.size) ∧
      bytes = data.extract v.offset (v.offset + v.length) := by
  obtain ⟨hbytes, hinside⟩ := take_copies hcopies hc h
  obtain ⟨hal, _, c₁, _, _, _, hc'⟩ := take_ok h
  have hstop : c'.pos = c.pos + 8 * count := by
    rw [hc', Nat.mul_comm 8]
  have hspans : v.Spans c.pos c'.pos := by
    rw [hv]
    exact Value.leaf_spans (by omega) (Or.inl ⟨hal, by omega⟩)
  have hoffset := hspans.offset
  have hlength : v.length = count := by
    have hend := hspans.bytes
    omega
  rw [hoffset, hlength]
  exact ⟨hinside, hbytes⟩

/-- **A value that is read shows what stands in the data.** -/
theorem readElement_shows {levels : Nat} (h : d.readElement levels ctx i c = .ok v c') :
    Shows d data v := by
  have helement := readElement_element h
  obtain ⟨n, _, h⟩ := readElement_ok h
  unfold readBody at h
  unfold Shows
  rw [helement]
  cases hbody : (d.document.element i).body with
  | number body =>
      simp only [hbody] at h
      intro htype
      obtain ⟨bits, big, payload, hbig, htake, hv, _⟩ := readNumber_taken h
      unfold takeNumber at htake
      simp only [htype] at htake
      unfold readInteger at htake
      obtain ⟨raw, c₁, hraw, htake⟩ := Reader.bind_ok htake
      cases htake
      obtain ⟨hholds, hwidth⟩ := takeInteger_holds hcopies hc hbig hraw hv
      refine ⟨raw, hholds, ?_⟩
      rw [hwidth, hv]
      rfl
  | offset body =>
      simp only [hbody] at h
      obtain ⟨bits, big, raw, hbig, htake, hv, _⟩ := readOffset_taken h
      refine ⟨raw, (takeInteger_holds hcopies hc hbig htake hv).1, ?_⟩
      rw [hv]
      rfl
  | binary body =>
      simp only [hbody] at h
      obtain ⟨count, bytes, htake, hv, _⟩ := readBinary_taken h
      obtain ⟨hinside, hbytes⟩ := take_shown hcopies hc htake hv
      refine ⟨hinside, ?_⟩
      rw [← hbytes, hv]
      rfl
  | struct body => trivial
  | string body => trivial
  | structRef body => trivial
  | grammarRef body => trivial
  | custom body => trivial
  | script s => trivial
  | padding => trivial

end

/-- **Fields show what stands in the data at their places.** In a tree that a step of a session over
some data gives, every integer is what the bits of its place write, highest first unless it is whole
bytes in little order, with the sign that its element has; and every run of bytes is the part of the
data that it covers. Where an integer of whole bytes has its highest byte first, it makes no
difference whether it is taken as bytes or as bits. -/
theorem step_shows {source : σ} (hdoc : d.document.Made) (hcopies : d.source.Copies data I)
    (hscripts : d.ScriptsStay I) (hsource : I source) :
    (∀ (steps : List Step) (s : Step) (v : Value) (c' : Cursor σ),
      d.step s (Machine.session d steps (.new source)).cursor = .ok (some v) c' →
      ∀ ctx w, Occurs d {} v ctx w → Shows d data w) ∧
    ∀ (ctx : Context) (i k n : Nat) (c c' : Cursor σ), c.pos % 8 = 0 → 1 ≤ k ∧ k ≤ 8 →
      ((d.take ctx i k >>= fun bytes => pure (bytes.toNat true)) c = .ok n c' ↔
        d.takeBits ctx (8 * k) c = .ok n c') := by
  have hmaintains : d.Maintains (InState I) := readElement_keeps hcopies.stays hscripts
  refine ⟨?_, fun ctx i k n c c' hal hk => take_iff_takeBits hal hk⟩
  intro steps s v c' h ctx w hw
  obtain ⟨j, hread⟩ := step_some h
  have hcursor := Machine.session_cursor hmaintains (fun _ _ hc _ => hc) hsource steps
  rcases occurs_read hmaintains _ hread hcursor (by intro l hl; cases hl) hw with
    hpad | ⟨levels, c₁, c₂, hc₁, _, hread₁⟩
  · unfold Shows
    rw [hpad.element, hdoc.reserved.body]
    trivial
  · exact readElement_shows hcopies hc₁ hread₁

end Decoder

/-! ## A grammar of fields

A number of twelve bits and one of four share two bytes, then come a number of two bytes in little
order, an offset of two bytes in big order, and one byte as it is. -/

/-- The grammar of some fields. -/
def Document.fields : Document :=
  .ofParts "" { start := some { reference := .id 1, target := some 5 } }
    #[{ body := .number { length := some (.constant 12), lengthUnit := some .bit } },
      { body := .number
          { length := some (.constant 4), lengthUnit := some .bit, signed := some false } },
      { body := .number { length := some (.constant 2) } },
      { body := .offset { length := some (.constant 2), endian := some .big } },
      { body := .binary { length := some (.constant 1) } },
      { body := .struct { elements := [0, 1, 2, 3, 4] } }] #[]

/-- A decoder of these fields in memory. -/
def Decoder.fields : Decoder Bytes := { document := .fields, source := .plain }

/-- The first number is negative, the third has its bytes in reverse order. -/
theorem Decoder.step_shows_fields : ∃ v c,
    fields.step .decode { source := #[0xFF, 0x8A, 0xFE, 0xFF, 0x12, 0x34, 0x56] } =
      .ok (some v) c ∧
    (∀ ctx w, Occurs fields {} v ctx w →
      Shows fields #[0xFF, 0x8A, 0xFE, 0xFF, 0x12, 0x34, 0x56] w) ∧
    v.children.map (·.payload) =
      [.int (-8), .uint 10, .int (-2), .offset 0x1234, .bytes #[0x56]] ∧
    v.children.map (·.bitStart) = [0, 12, 16, 32, 48] := by
  have h : fields.step .decode { source := #[0xFF, 0x8A, 0xFE, 0xFF, 0x12, 0x34, 0x56] } =
      .ok (some
        { element := 5, offset := 0, length := 7,
          children :=
            [{ element := 0, offset := 0, length := 2, bits := some ⟨0, 12⟩, payload := .int (-8) },
              { element := 1, offset := 1, length := 1, bits := some ⟨4, 4⟩, payload := .uint 10 },
              { element := 2, offset := 2, length := 2, payload := .int (-2) },
              { element := 3, offset := 4, length := 2, payload := .offset 0x1234 },
              { element := 4, offset := 6, length := 1, payload := .bytes #[0x56] }] })
        { pos := 56, source := #[0xFF, 0x8A, 0xFE, 0xFF, 0x12, 0x34, 0x56] } := by cbv
  have hcopies := ByteSource.plain_copies #[0xFF, 0x8A, 0xFE, 0xFF, 0x12, 0x34, 0x56]
  have hshows := (step_shows (d := fields) (.ofParts ..) hcopies (.of_empty rfl) rfl).1
  exact ⟨_, _, h, hshows [] .decode _ _ h, by decide, by decide⟩

end BinaryGrammar
