import BinaryGrammar.Proofs.Taking

/-!
# Packed numbers

Numbers of any width up to that of a word can stand one after the other without regard to bytes.
Here they are written: the bits of each, highest first, in two's complement where they are signed,
and all bits in groups of eight. A structure of as many numbers reads back what was written, whether
the decoder goes from byte to byte or from bit to bit, and says for each number where its bits are.
-/

set_option autoImplicit false

namespace BinaryGrammar

/-! ## Writing bits -/

namespace Bytes

/-- The number that the eight bits of a byte write, highest first. -/
def byteOf (bits : List Bool) (j : Nat) : Nat :=
  (List.range 8).foldl (fun n k => n * 2 + (bits.getD (8 * j + k) false).toNat) 0

/-- The bytes that have the given bits, highest first. The last byte is filled up with zeros. -/
def pack (bits : List Bool) : Bytes :=
  Array.ofFn fun j : Fin ((bits.length + 7) / 8) => (byteOf bits j).toUInt8

theorem size_pack (bits : List Bool) : (pack bits).size = (bits.length + 7) / 8 := Array.size_ofFn

/-- A bit of a byte that is written bit by bit. -/
theorem byteOf_bit (bits : List Bool) (j : Nat) {k : Nat} (hk : k < 8) :
    (byteOf bits j).toUInt8.toNat >>> (7 - k) % 2 = (bits.getD (8 * j + k) false).toNat := by
  have hle (i : Nat) : (bits.getD i false).toNat ≤ 1 := Bool.toNat_le _
  have h0 := hle (8 * j + 0)
  have h1 := hle (8 * j + 1)
  have h2 := hle (8 * j + 2)
  have h3 := hle (8 * j + 3)
  have h4 := hle (8 * j + 4)
  have h5 := hle (8 * j + 5)
  have h6 := hle (8 * j + 6)
  have h7 := hle (8 * j + 7)
  have hbyte : (byteOf bits j).toUInt8.toNat = byteOf bits j % 256 := rfl
  rw [hbyte, Nat.shiftRight_eq_div_pow]
  simp only [byteOf, List.range, List.range.loop, List.foldl_cons, List.foldl_nil]
  interval_cases k <;> omega

/-- **Bits that are packed stand where they are in the list.** -/
theorem bit_pack (bits : List Bool) (i : Nat) :
    (pack bits).bit i = (bits.getD i false).toNat := by
  have hi : 8 * (i / 8) + i % 8 = i := Nat.div_add_mod i 8
  unfold bit
  rw [Array.getD_eq_getD_getElem?]
  by_cases hbyte : i / 8 < (bits.length + 7) / 8
  · have hget : (pack bits)[i / 8]? = some (byteOf bits (i / 8)).toUInt8 := by
      unfold pack
      rw [Array.getElem?_ofFn, dif_pos hbyte]
    rw [hget, Option.getD_some, byteOf_bit bits _ (Nat.mod_lt _ (by decide)), hi]
  · -- after the last byte there are zeros, as after the last bit
    have hget : (pack bits)[i / 8]? = none := by
      rw [Array.getElem?_eq_none]
      rw [size_pack]
      omega
    rw [hget, List.getD_eq_default _ _ (by omega)]
    change 0 >>> (7 - i % 8) % 2 = 0
    rw [Nat.zero_shiftRight]

/-- The number that some bits write is the one that has these bits. -/
theorem bitsToNat_eq {bytes : Bytes} {start : Nat} : ∀ {width n : Nat}, n < 2 ^ width →
    (∀ k < width, bytes.bit (start + k) = (n.testBit (width - 1 - k)).toNat) →
    bytes.bitsToNat start width = n := by
  intro width
  induction width with
  | zero =>
      intro n hn _
      have hzero : n = 0 := by omega
      rw [hzero]
      rfl
  | succ width ih =>
      intro n hn hbits
      -- the last bit is the lowest, and the bits before it are those of the half
      have hhalf : n / 2 < 2 ^ width := by
        rw [Nat.pow_succ] at hn
        omega
      have hlast := hbits width (Nat.lt_succ_self _)
      rw [show width + 1 - 1 - width = 0 by omega, Nat.testBit_zero] at hlast
      rw [bitsToNat_succ, hlast, ih hhalf ?_]
      · rcases Nat.mod_two_eq_zero_or_one n with h | h
        · simp only [h, Nat.zero_ne_one, decide_false, Bool.toNat_false]
          omega
        · simp only [h, decide_true, Bool.toNat_true]
          omega
      · intro k hk
        rw [hbits k (by omega), Nat.testBit_div_two,
          show width - 1 - k + 1 = width + 1 - 1 - k by omega]

end Bytes

/-! ## Fields that are packed -/

/-- A number to be packed: how wide it is, whether it is signed, and a value that has room. -/
structure PackedField where
  width : Nat
  signed : Bool
  value : Int
  width_pos : 1 ≤ width
  width_le : width ≤ 64
  fits : if signed then -2 ^ (width - 1) ≤ value ∧ value < 2 ^ (width - 1)
    else 0 ≤ value ∧ value < 2 ^ width

namespace PackedField

/-- What is read of a field. -/
def payload (f : PackedField) : Payload :=
  if f.signed then .int f.value else .uint f.value.toNat

/-- The bits of a field, highest first, by two's complement. -/
def bits (f : PackedField) : List Bool :=
  (List.range f.width).map (BitVec.ofInt f.width f.value).getMsbD

/-- The bits of some fields, one field after the other. -/
def allBits (fields : List PackedField) : List Bool := fields.flatMap bits

/-- The number of bits in some fields. -/
def totalWidth (fields : List PackedField) : Nat := (fields.map width).sum

theorem totalWidth_cons (f : PackedField) (fields : List PackedField) :
    totalWidth (f :: fields) = f.width + totalWidth fields := by
  unfold totalWidth
  rw [List.map_cons, List.sum_cons]

theorem totalWidth_append (before after : List PackedField) :
    totalWidth (before ++ after) = totalWidth before + totalWidth after := by
  unfold totalWidth
  rw [List.map_append, List.sum_append]

variable (f : PackedField)

theorem length_bits : f.bits.length = f.width := by
  unfold bits
  rw [List.length_map, List.length_range]

theorem length_allBits (fields : List PackedField) :
    (allBits fields).length = totalWidth fields := by
  unfold allBits totalWidth
  rw [List.length_flatMap]
  congr 1
  exact List.map_congr_left fun f _ => f.length_bits

theorem getD_bits {k : Nat} (hk : k < f.width) :
    f.bits.getD k false = (Word.unsignedOf f.width f.value).testBit (f.width - 1 - k) := by
  unfold bits Word.unsignedOf
  rw [List.getD_eq_getElem?_getD, List.getElem?_map, List.getElem?_range hk]
  change (BitVec.ofInt f.width f.value).getMsbD k = _
  rw [BitVec.getMsbD, BitVec.testBit_toNat, decide_eq_true hk, Bool.true_and]

/-- The value of a field is that of its bits. -/
theorem payload_unsignedOf :
    (if f.signed then Payload.int (Word.signedOf f.width (Word.unsignedOf f.width f.value))
      else .uint (Word.unsignedOf f.width f.value)) = f.payload := by
  have hfits := f.fits
  have hpos := f.width_pos
  unfold payload Word.signedOf Word.unsignedOf
  cases hsigned : f.signed with
  | true =>
      -- the bits are those of the value, so their signed reading is the value itself
      rw [hsigned] at hfits
      rw [if_pos rfl, if_pos rfl, BitVec.ofNat_toNat, BitVec.setWidth_eq]
      obtain ⟨hle, hlt⟩ := hfits
      rw [BitVec.toInt_ofInt_eq_self (by omega) hle hlt]
  | false =>
      rw [hsigned] at hfits
      obtain ⟨hle, hlt⟩ := hfits
      rw [if_neg (by decide), if_neg (by decide), BitVec.toNat_ofInt]
      rw [Int.emod_eq_of_lt hle (by exact_mod_cast hlt)]

end PackedField

open PackedField (allBits totalWidth)

/-- Between two groups of fields, the next field stands in the packed bits. -/
theorem PackedField.integerAt_pack (before after : List PackedField) (f : PackedField) :
    (Bytes.pack (allBits (before ++ f :: after))).integerAt true (totalWidth before)
      (totalWidth before + f.width) = Word.unsignedOf f.width f.value := by
  have hlength := length_allBits before
  have hsplit : allBits (before ++ f :: after) = allBits before ++ (f.bits ++ allBits after) := by
    unfold allBits
    rw [List.flatMap_append, List.flatMap_cons]
  unfold Bytes.integerAt
  rw [if_neg (by simp), Nat.add_sub_cancel_left]
  refine Bytes.bitsToNat_eq (BitVec.isLt _) fun k hk => ?_
  rw [Bytes.bit_pack, hsplit, ← f.getD_bits hk, List.getD_append_right _ _ _ _ (by omega), hlength,
    Nat.add_sub_cancel_left, List.getD_append _ _ _ _ (by rw [length_bits]; exact hk)]

namespace Decoder

open Reader (Delivers)

variable {σ : Type}

/-- An element is a number that reads a packed field: once, from its first bit on, and whatever its
value is. -/
structure ReadsField (d : Decoder σ) (i : Nat) (f : PackedField) : Prop where
  number : ∃ body, (d.document.element i).body = .number body ∧
    (d.document.mustMatch i = false ∨ body.values = [] ∧ body.masks = [])
  integer : d.document.numberType i = .integer
  length : ∃ e, d.document.length i = some e ∧ ∀ ctx, d.evaluate ctx e = .ok f.width
  unit : d.document.lengthUnit i = .bit
  endian : d.document.endian i = .big
  signed : d.document.signed i = f.signed
  repeatMin : d.document.repeatMin i = .constant 1
  repeatMax : d.document.repeatMax i = .constant 1

/-- An element is a structure without a length that reads packed fields one after the other. -/
structure ReadsFields (d : Decoder σ) (i : Nat) (body : StructBody) (fields : List PackedField) :
    Prop where
  struct : (d.document.element i).body = .struct body
  order : d.document.order i = .fixed
  length : d.document.length i = none
  elements : List.Forall₂ d.ReadsField body.elements fields

variable {d : Decoder σ} {I : σ → Prop} {ctx outer : Context} {i : Nat} {c : Cursor σ}
  {f : PackedField}

theorem ReadsField.lengthBits (h : d.ReadsField i f) (ctx : Context) :
    d.lengthBits ctx i = .ok f.width := by
  obtain ⟨e, hlength, heval⟩ := h.length
  have hword : f.width * 1 < Word.modulus := by
    have hle := f.width_le
    unfold Word.modulus
    omega
  have hbits : d.bitsOf i f.width = .ok f.width := by
    unfold bitsOf
    rw [if_neg (by omega), h.unit, Int.toNat_natCast]
    unfold Word.mul?
    rw [LengthUnit.bits, if_pos hword, Nat.mul_one]
  unfold Decoder.lengthBits lengthBits?
  rw [hlength]
  change ((d.evaluate ctx e >>= fun length =>
    d.bitsOf i length >>= fun bits => pure (some bits)) >>= required) = _
  rw [heval]
  change ((d.bitsOf i f.width >>= fun bits => pure (some bits)) >>= required) = _
  rw [hbits]
  rfl

/-- A packed field that is there is read. -/
theorem readElement_field {before after : List PackedField}
    (hserves : d.source.Serves (Bytes.pack (allBits (before ++ f :: after))) I) (hc : I c.source)
    (hlimit : ctx.limit = none) (hpos : c.pos = totalWidth before)
    (hword : totalWidth (before ++ f :: after) + 7 < Word.modulus) (h : d.ReadsField i f)
    (levels : Nat) :
    Delivers I (d.readElement (levels + 1) ctx i) c
      (.leaf i c.pos (c.pos + f.width) f.payload) (c.pos + f.width) := by
  obtain ⟨body, hbody, haccepts⟩ := h.number
  have haccepts : d.document.mustMatch i = false ∨ ∀ v, body.accepts v = true := by
    refine haccepts.imp id fun hnone v => ?_
    unfold NumberBody.accepts
    rw [hnone.1, hnone.2]
    rfl
  have htotal := PackedField.totalWidth_append before (f :: after)
  rw [PackedField.totalWidth_cons] at htotal
  have hin : c.pos + f.width ≤ 8 * (Bytes.pack (allBits (before ++ f :: after))).size := by
    rw [Bytes.size_pack, PackedField.length_allBits]
    omega
  refine readElement_delivers ?_
  unfold readBody
  rw [hbody]
  unfold readNumber
  change Delivers I (Reader.ofExcept (d.lengthBits ctx i) >>= _) c _ _
  refine .ofExcept_bind (h.lengthBits ctx) (.ofExcept_bind (a := true) ?_ ?_)
  · unfold bigEndian
    rw [h.endian]
  have hinteger : d.takeNumber ctx i f.width true = d.readInteger ctx i f.width true := by
    unfold takeNumber
    rw [h.integer]
  rw [hinteger]
  refine .bind (readInteger_delivers hserves hc hlimit true ⟨f.width_pos, f.width_le⟩ hin
    (by omega)) ?_
  intro c' hpos' hc'
  rw [hpos, f.integerAt_pack, h.signed, f.payload_unsignedOf, ← hpos, ← hpos']
  exact finish_match_delivers hc' (by omega) (by omega) haccepts

/-! ## The structure -/

/-- The values of fields that are packed from a bit position on. -/
def fieldValues : Nat → List Nat → List PackedField → List Value
  | start, i :: is, f :: fields =>
    .leaf i start (start + f.width) f.payload :: fieldValues (start + f.width) is fields
  | _, _, _ => []

/-- So far a structure without a length has come to a bit position and has these values. -/
structure HasRead (I : σ → Prop) (p : Progress σ) (pos : Nat) (values : List Value) : Prop where
  extent : p.extent = .unbounded
  source : I p.cursor.source
  pos : p.cursor.pos = pos
  values : p.frame.values.toList = values

namespace HasRead

variable {p : Progress σ} {pos start : Nat} {values : List Value}

theorem limit (h : HasRead I p pos values) (houter : outer.limit = none) :
    (p.context outer).limit = none := by
  unfold Progress.context
  rw [h.extent]
  exact houter

theorem not_exhausted (h : HasRead I p pos values) (houter : outer.limit = none) :
    ¬p.exhausted outer := by
  unfold Progress.exhausted Context.exhausted
  rw [h.limit houter]
  exact Bool.false_ne_true

/-- There is nothing more to settle. -/
theorem settle (h : HasRead I p pos values) (last : Bool) :
    d.settle outer i start last p = .ok () p := by
  unfold Decoder.settle
  rw [h.extent]

/-- An instance that is read and is not empty is one more value. -/
theorem attempt {read : ElementReader σ} {child stop : Nat} {v : Value} {enough : Bool}
    (h : HasRead I p pos values) (hread : Delivers I (read (p.context outer) child) p.cursor v stop)
    (hmoves : stop ≠ pos) :
    ∃ p', d.attempt read outer i start child enough p = .ok .more p' ∧
      HasRead I p' stop (values ++ [v]) := by
  obtain ⟨c', hrun, hstop, hc'⟩ := hread
  have hnext : HasRead I (Progress.push { p with cursor := c' } d.document v) stop
      (values ++ [v]) := by
    refine ⟨h.extent, hc', hstop, ?_⟩
    rw [Progress.values_push, h.values]
  refine ⟨_, ?_, hnext⟩
  unfold Decoder.attempt
  rw [hrun]
  dsimp only
  rw [hnext.settle]
  dsimp only
  rw [hstop, h.pos, if_neg hmoves]

end HasRead

/-- One field: the element is read once. -/
theorem readInstances_field (levels i start : Nat) {p : Progress σ}
    {before after : List PackedField} {values : List Value} {child : Nat}
    (hserves : d.source.Serves (Bytes.pack (allBits (before ++ f :: after))) I)
    (houter : outer.limit = none) (hword : totalWidth (before ++ f :: after) + 7 < Word.modulus)
    (hp : HasRead I p (totalWidth before) values) (h : d.ReadsField child f) :
    ∃ p', d.readInstances (d.readElement (levels + 1)) outer i start child 1 1 0 p = .ok () p' ∧
      HasRead I p' (totalWidth before + f.width) (values ++
        [.leaf child (totalWidth before) (totalWidth before + f.width) f.payload]) := by
  have hpos := f.width_pos
  have hread := readElement_field hserves hp.source (hp.limit houter) hp.pos hword h levels
  rw [hp.pos] at hread
  obtain ⟨p', hattempt, hp'⟩ := hp.attempt hread (show _ ≠ _ by omega)
  refine ⟨p', ?_, hp'⟩
  rw [readInstances_succ (hp.not_exhausted houter), Reader.bind_of_ok hattempt]
  rfl

/-- All fields, one after the other. -/
theorem readElements_fields (levels i start : Nat) (houter : outer.limit = none)
    {fields : List PackedField}
    (hserves : d.source.Serves (Bytes.pack (allBits fields)) I)
    (hword : totalWidth fields + 7 < Word.modulus) :
    ∀ {children : List Nat} {after : List PackedField}, List.Forall₂ d.ReadsField children after →
    ∀ (before : List PackedField) {p : Progress σ} {values : List Value},
    fields = before ++ after → HasRead I p (totalWidth before) values →
    ∃ p', d.readElements (d.readElement (levels + 1)) outer i start children p = .ok () p' ∧
      HasRead I p' (totalWidth fields)
        (values ++ fieldValues (totalWidth before) children after) := by
  -- the fields are split where the reader stands: what is before has been read
  intro children after hreads
  induction hreads with
  | nil =>
      intro before p values hfields hp
      rw [List.append_nil] at hfields
      rw [hfields]
      refine ⟨p, rfl, ?_⟩
      unfold fieldValues
      rw [List.append_nil]
      exact hp
  | @cons child f children after h _ ih =>
      intro before p values hfields hp
      have hsplit : fields = (before ++ [f]) ++ after := by
        rw [hfields, List.append_assoc, List.singleton_append]
      have hwidth : totalWidth (before ++ [f]) = totalWidth before + f.width := by
        rw [PackedField.totalWidth_append, PackedField.totalWidth_cons]
        rfl
      -- the next field is read, and then the others with it before them
      rw [hfields] at hserves hword
      obtain ⟨p₁, hfirst, hp₁⟩ := readInstances_field levels i start hserves houter hword hp h
      rw [← hwidth] at hp₁
      obtain ⟨p₂, hrest, hp₂⟩ := ih (before ++ [f]) hsplit hp₁
      refine ⟨p₂, ?_, ?_⟩
      · have hbounds : d.bound outer (d.document.repeatMin child) p = .ok 1 p ∧
            d.bound outer (d.document.repeatMax child) p = .ok 1 p := by
          rw [h.repeatMin, h.repeatMax]
          exact ⟨rfl, rfl⟩
        rw [readElements, Reader.get_bind, if_neg (hp.not_exhausted houter),
          Reader.bind_of_ok hbounds.1, Reader.bind_of_ok hbounds.2]
        exact (Reader.bind_of_ok hfirst).trans hrest
      · rw [hwidth, List.append_assoc] at hp₂
        exact hp₂

/-- The fields of the structure, from its first settlement to its last. -/
theorem readFields_fields (levels : Nat) {body : StructBody} {fields : List PackedField}
    (hserves : d.source.Serves (Bytes.pack (allBits fields)) I)
    (hword : totalWidth fields + 7 < Word.modulus) (houter : outer.limit = none)
    (h : d.ReadsFields i body fields) (hc : I c.source) (hpos : c.pos = 0) :
    ∃ p, d.readFields (d.readElement (levels + 1)) outer i 0 body.elements { cursor := c } =
        .ok () p ∧
      HasRead I p (totalWidth fields) (fieldValues 0 body.elements fields) := by
  have hfirst : d.settle outer i 0 false { cursor := c } =
      .ok () { cursor := c, extent := .unbounded } := by
    unfold Decoder.settle extentBits?
    dsimp only
    rw [h.length]
    rfl
  have hstart : HasRead I { cursor := c, extent := .unbounded } (totalWidth []) [] :=
    ⟨rfl, hc, hpos, rfl⟩
  obtain ⟨p, hrun, hp⟩ :=
    readElements_fields levels i 0 houter hserves hword h.elements [] rfl hstart
  refine ⟨p, ?_, hp⟩
  unfold readFields
  rw [Reader.bind_of_ok hfirst, Reader.bind_of_ok hrun]
  exact hp.settle true

/-- **A structure of packed fields is read.** -/
theorem readStructure_fields (levels : Nat) {body : StructBody} {fields : List PackedField}
    (hserves : d.source.Serves (Bytes.pack (allBits fields)) I) (hwhole : totalWidth fields % 8 = 0)
    (hword : totalWidth fields + 7 < Word.modulus) (houter : outer.limit = none)
    (h : d.ReadsFields i body fields) (hc : I c.source) (hpos : c.pos = 0) :
    Delivers I (d.readStructure (d.readElement (levels + 1)) outer i i body) c
      (structureValue i 0 (totalWidth fields) (fieldValues 0 body.elements fields))
      (totalWidth fields) := by
  obtain ⟨p, hrun, hp⟩ := readFields_fields levels hserves hword houter h hc hpos
  have hfinish : d.finish outer p.extent p.cursor = .ok [] p.cursor := by
    rw [hp.extent]
    unfold finish
    have haligned : Reader.ensureAligned p.cursor = .ok () p.cursor :=
      (Reader.Checks.require _ _).of (by rw [hp.pos, hwhole]) p.cursor
    exact Reader.bind_of_ok haligned
  unfold readStructure
  refine .check_bind (.require _ _) h.order (.aligned_bind (by rw [hpos]) ?_)
  refine ⟨p.cursor, ?_, hp.pos, hp.source⟩
  refine Reader.pos_bind.trans ?_
  rw [hpos, hrun]
  dsimp only
  rw [hfinish]
  dsimp only
  rw [hp.values, List.append_nil]
  unfold finishStructure
  rw [Reader.pos_bind, hp.pos, Reader.requireWord_of (by omega)]
  rfl

/-! ## What the values say -/

/-- There is one value for each field, of its element and with what was written. -/
theorem fieldValues_told {R : Nat → PackedField → Prop} {children : List Nat}
    {fields : List PackedField} (h : List.Forall₂ R children fields) : ∀ start : Nat,
    (fieldValues start children fields).map (·.element) = children ∧
      (fieldValues start children fields).map (·.payload) = fields.map (·.payload) := by
  induction h with
  | nil =>
      intro start
      exact ⟨rfl, rfl⟩
  | @cons child f _ _ _ _ ih =>
      intro start
      obtain ⟨helements, hpayloads⟩ := ih (start + f.width)
      exact ⟨congrArg (child :: ·) helements, congrArg (f.payload :: ·) hpayloads⟩

/-- Each value lies where the field was written. -/
theorem fieldValues_spans : ∀ (fields : List PackedField) (children : List Nat) (start : Nat)
    {k : Nat} {u : Value} {f : PackedField}, start + totalWidth fields + 7 < Word.modulus →
    (fieldValues start children fields)[k]? = some u → fields[k]? = some f →
    u.Spans (start + totalWidth (fields.take k))
      (start + totalWidth (fields.take k) + f.width) := by
  intro fields
  induction fields with
  | nil =>
      intro children start k u f _ _ hf
      cases hf
  | cons g fields ih =>
      intro children start k u f hword hu hf
      rw [PackedField.totalWidth_cons] at hword
      cases children with
      | nil => cases hu
      | cons child children =>
          cases k with
          | zero =>
              cases hu
              cases hf
              change Value.Spans _ start (start + g.width)
              exact Value.leaf_spans (Nat.le_add_right ..)
                (Or.inr (Nat.add_le_add_left g.width_le _))
          | succ k =>
              rw [List.take_succ_cons, PackedField.totalWidth_cons, ← Nat.add_assoc]
              exact ih children (start + g.width) (by omega) hu hf

/-- **Packed numbers are read back.** Write numbers of any widths up to that of a word, signed or
not, one after the other, so that they make whole bytes. A structure without a length whose elements
are numbers of these widths in bits, the highest byte first, reads exactly these values in their
order, says that each lies where its bits were written, and leaves the cursor at the end of the
data. It does not matter how the source hands out the data; only their bits have to be as few as a
word can count. -/
theorem decode_packed {source : σ} {body : StructBody} {fields : List PackedField}
    (hserves : d.source.Serves (Bytes.pack (allBits fields)) I) (hsource : I source)
    (hstart : d.document.start = some i) (hreads : d.ReadsFields i body fields)
    (hwhole : totalWidth fields % 8 = 0) (hword : totalWidth fields < Word.modulus) :
    ∃ v c', d.decode { source } = .ok v c' ∧
      v.children.map (·.element) = body.elements ∧
      v.children.map (·.payload) = fields.map (·.payload) ∧
      (∀ (k : Nat) (u : Value) (f : PackedField), v.children[k]? = some u → fields[k]? = some f →
        u.Spans (totalWidth (fields.take k)) (totalWidth (fields.take k) + f.width)) ∧
      c'.pos = 8 * (Bytes.pack (allBits fields)).size := by
  have hword' : totalWidth fields + 7 < Word.modulus := by
    unfold Word.modulus at *
    omega
  have hstruct : d.readBody (d.readElement 127) {} i =
      d.readStructure (d.readElement 127) {} i i body := by
    unfold readBody
    rw [hreads.struct]
  obtain ⟨helements, hpayloads⟩ := fieldValues_told hreads.elements 0
  have hread : Delivers I (d.readStructure (d.readElement 127) {} i i body) { source } _ _ :=
    readStructure_fields 126 hserves hwhole hword' rfl hreads hsource rfl
  rw [← hstruct] at hread
  obtain ⟨c', hrun, hpos, _⟩ := readElement_delivers hread
  refine ⟨structureValue i 0 (totalWidth fields) (fieldValues 0 body.elements fields), c', ?_,
    helements, hpayloads, ?_, ?_⟩
  · unfold decode
    rw [hstart]
    exact hrun
  · intro k u f hu hf
    have hspans := fieldValues_spans fields body.elements 0 (by omega) hu hf
    rw [Nat.zero_add] at hspans
    exact hspans
  · rw [hpos, Bytes.size_pack, PackedField.length_allBits]
    omega

/-! ## A number across nine bytes

Between a signed number of three bits and an unsigned one of five there is one as wide as a word. -/

/-- The numbers and what is written. -/
def straddling : List PackedField :=
  [⟨3, true, -1, by decide, by decide, by decide⟩,
    ⟨64, false, 0x0123456789ABCDEF, by decide, by decide, by decide⟩,
    ⟨5, false, 10, by decide, by decide, by decide⟩]

/-- The grammar of the numbers; they take their byte order from the structure. -/
def straddlingDecoder : Decoder Bytes where
  document :=
    .ofParts "" { start := some { reference := .id 1, target := some 3 } }
      #[{ parent := some 3,
          body := .number { length := some (.constant 3), lengthUnit := some .bit } },
        { parent := some 3,
          body := .number
            { length := some (.constant 64), lengthUnit := some .bit, signed := some false } },
        { parent := some 3,
          body := .number
            { length := some (.constant 5), lengthUnit := some .bit, signed := some false } },
        { body := .struct { endian := some .big, elements := [0, 1, 2] } }] #[]
  source := .plain

/-- The wide number begins in the first byte and ends in the ninth. -/
theorem decode_packed_straddling : ∃ v c',
    straddlingDecoder.decode
        { source := #[0xE0, 0x24, 0x68, 0xAC, 0xF1, 0x35, 0x79, 0xBD, 0xEA] } = .ok v c' ∧
      v.children.map (·.payload) = [.int (-1), .uint 0x0123456789ABCDEF, .uint 10] ∧
      c'.pos = 72 := by
  have hdata : Bytes.pack (allBits straddling) =
      #[0xE0, 0x24, 0x68, 0xAC, 0xF1, 0x35, 0x79, 0xBD, 0xEA] := by decide
  have hfields : straddlingDecoder.ReadsFields 3 { endian := some .big, elements := [0, 1, 2] }
      straddling := by
    refine ⟨rfl, rfl, rfl, ?_⟩
    refine .cons ?_ (.cons ?_ (.cons ?_ .nil))
    all_goals
      exact ⟨⟨_, rfl, Or.inr ⟨rfl, rfl⟩⟩, rfl, ⟨_, rfl, fun _ => rfl⟩, rfl, rfl, rfl, rfl, rfl⟩
  have hserves : straddlingDecoder.source.Serves (Bytes.pack (allBits straddling))
      (· = Bytes.pack (allBits straddling)) := ByteSource.plain_serves _
  obtain ⟨v, c', hrun, _, hpayloads, _, hpos⟩ :=
    decode_packed hserves rfl rfl hfields (by decide) (by decide)
  rw [hdata] at hrun hpos
  exact ⟨v, c', hrun, hpayloads, hpos⟩

end Decoder

end BinaryGrammar
