import BinaryGrammar.Element.Attribute
import BinaryGrammar.Proofs.Numeral
import BinaryGrammar.Proofs.Payload
import BinaryGrammar.Proofs.Rendering

/-!
# Fixed values of integers

A fixed value is authored as a text, kept as a signed word, and compared with a field that is some
bits. Here the three are put together: which number a text writes, how that number is kept, and
which bits of which width have the fixed value. A field has it when one of its two readings is the
number that the text writes. There is one exception. A number above the greatest signed word is kept
as the negative number with the same sixty-four bits, so a narrower field also has the fixed value
when its signed reading is that negative number.
-/

set_option autoImplicit false

namespace BinaryGrammar

/-! ## Words -/

namespace Word

/-- The signed reading of some bits. -/
theorem signedOf_eq {w r : Nat} (hr : r < 2 ^ w) :
    signedOf w r = if 2 * r < 2 ^ w then (r : Int) else r - (2 ^ w : Nat) := by
  unfold signedOf
  rw [BitVec.toInt_eq_toNat_cond, BitVec.toNat_ofNat, Nat.mod_eq_of_lt hr]

/-- The unsigned word with the same bits. -/
theorem toUnsigned_eq {v : Int} (hv : IsSigned v) :
    (toUnsigned v : Int) = if 0 ≤ v then v else v + modulus := by
  unfold IsSigned least greatest at hv
  unfold toUnsigned unsignedOf modulus
  rw [BitVec.toNat_ofInt]
  split <;> omega

/-- The bits of a field are taken for an integer that they cannot have: it is above all signed
words, they are too few for it, and their signed reading is the signed word with the bits of it. -/
def Misreads (w r : Nat) (n : Int) : Prop :=
  w < 64 ∧ greatest < n ∧ n - modulus = signedOf w r

end Word

/-! ## Literals -/

namespace NumberLiteral

/-- How the integer of a literal is kept: a signed word as it is, and an unsigned word above all
signed ones as the signed word with the same bits. -/
inductive Keeps : Int → Int → Prop
  | signed {n : Int} : Word.IsSigned n → Keeps n n
  | wrapped {n : Int} : Word.greatest < n → n < Word.modulus → Keeps n (n - Word.modulus)

theorem Keeps.range {n v : Int} (h : Keeps n v) :
    Word.least ≤ n ∧ n < Word.modulus := by
  cases h with
  | signed hn =>
      unfold Word.IsSigned Word.greatest at hn
      unfold Word.modulus
      omega
  | wrapped hlow hhigh =>
      unfold Word.greatest at hlow
      unfold Word.least
      omega

theorem Keeps.isSigned {n v : Int} (h : Keeps n v) : Word.IsSigned v := by
  cases h with
  | signed hn => exact hn
  | wrapped hlow hhigh =>
      unfold Word.IsSigned Word.least Word.greatest Word.modulus at *
      omega

theorem Keeps.toSigned {n : Nat} (h : n ≤ Word.mask) : Keeps n (Word.toSigned n) := by
  have hlt : n < 2 ^ 64 := by
    unfold Word.mask at h
    omega
  unfold Word.toSigned
  rw [Word.signedOf_eq hlt]
  split
  · refine .signed ?_
    unfold Word.IsSigned Word.least Word.greatest
    omega
  · refine .wrapped ?_ ?_
    · unfold Word.greatest
      omega
    · unfold Word.modulus
      omega

end NumberLiteral

namespace Attribute

variable {label : Label} {text : String} {cs ds : List Char} {m n v : Int}

/-- The integers that the text of a number can write. After a hexadecimal mark there may be a plus
sign. -/
inductive WritesInteger : List Char → Int → Prop
  | integer {cs : List Char} {n : Int} : Integer.Writes cs n → WritesInteger cs n
  | plusInside {x : Char} {ds : List Char} {n : Nat} :
    x = 'x' ∨ x = 'X' → Digits.Writes 16 ds n → WritesInteger ('0' :: x :: '+' :: ds) n

/-- A text writes one integer at most. -/
theorem WritesInteger.unique (hm : WritesInteger cs m) (hn : WritesInteger cs n) : m = n := by
  have hinside {x : Char} {ds : List Char} {v : Int} (hx : x = 'x' ∨ x = 'X') :
      ¬ Integer.Writes ('0' :: x :: '+' :: ds) v := by
    have hnone : Integer.value? ('0' :: x :: '+' :: ds) = none := by
      rcases hx with rfl | rfl <;> rfl
    rw [← Integer.value?_eq_some_iff, hnone]
    exact Option.some_ne_none v ∘ Eq.symm
  cases hm with
  | integer hm =>
      cases hn with
      | integer hn =>
          rw [← Integer.value?_eq_some_iff] at hm hn
          exact Option.some.inj (hm.symm.trans hn)
      | plusInside hx _ => exact absurd hm (hinside hx)
  | plusInside hx hm =>
      cases hn with
      | integer hn => exact absurd hn (hinside hx)
      | plusInside _ hn =>
          rw [← Digits.read?_eq_some_iff] at hm hn
          rw [Option.some.inj (hm.symm.trans hn)]

theorem readBounded?_cases {base bound n : Nat} (h : Digits.readBounded? base bound cs = some n) :
    n ≤ bound ∧ (Digits.Writes base cs n ∨ ∃ ds, cs = '+' :: ds ∧ Digits.Writes base ds n) := by
  unfold Digits.readBounded? at h
  dsimp only at h
  split at h
  · rename_i k hread
    split at h
    · rename_i hle
      cases h
      refine ⟨hle, ?_⟩
      rw [Digits.read?_eq_some_iff] at hread
      split at hread
      · exact .inr ⟨_, rfl, hread⟩
      · exact .inl hread
    · cases h
  · cases h

/-- What is read as an unsigned word is a word that the text writes. -/
theorem unsigned?_writes {n : Nat} (h : unsigned? text = some n) :
    n ≤ Word.mask ∧ WritesInteger text.toList n := by
  unfold unsigned? at h
  split at h
  · rename_i ds hmark
    have hhex : ∃ x, (x = 'x' ∨ x = 'X') ∧ text.toList = '0' :: x :: ds := by
      unfold Integer.afterHexMark? at hmark
      split at hmark <;> cases hmark
      · rename_i hcs
        exact ⟨'x', .inl rfl, hcs⟩
      · rename_i hcs
        exact ⟨'X', .inr rfl, hcs⟩
    obtain ⟨x, hx, hcs⟩ := hhex
    obtain ⟨hle, hds | ⟨ds, rfl, hds⟩⟩ := readBounded?_cases h
    · rw [hcs]
      exact ⟨hle, .integer (.plain (.mk (.hexadecimal hx) hds))⟩
    · rw [hcs]
      exact ⟨hle, .plusInside hx hds⟩
  · obtain ⟨hle, hds | ⟨ds, hcs, hds⟩⟩ := readBounded?_cases h
    · exact ⟨hle, .integer (.plain (.mk .decimal hds))⟩
    · rw [hcs]
      exact ⟨hle, .integer (.plus (.mk .decimal hds))⟩

/-- **An integer literal keeps the one number that its text writes.** -/
theorem numberLiteral_int (h : (numberLiteral label text).value = some (.int v)) :
    ∃ n, WritesInteger (Text.trim text).toList n ∧ NumberLiteral.Keeps n v := by
  unfold numberLiteral numberLiteral? at h
  dsimp only at h
  generalize Text.trim text = s at h ⊢
  cases hparse : Integer.parse? s with
  | some n =>
      rw [hparse] at h
      cases h
      obtain ⟨hwrites, hsigned⟩ := Integer.ofChars?_eq_some_iff.mp hparse
      exact ⟨v, .integer hwrites, .signed hsigned⟩
  | none =>
      rw [hparse] at h
      cases hunsigned : unsigned? s with
      | some n =>
          rw [hunsigned] at h
          cases h
          obtain ⟨hle, hwrites⟩ := unsigned?_writes hunsigned
          exact ⟨n, hwrites, .toSigned hle⟩
      | none =>
          rw [hunsigned] at h
          cases hfloat : Binary64.parse? s with
          | some x =>
              rw [hfloat] at h
              cases h
          | none =>
              rw [hfloat] at h
              cases h

theorem fixedNumber_value (label : Label) (raw : Record.FixedValue) :
    (fixedNumber label raw).value =
      (numberLiteral label raw.value).value.map fun n => ⟨raw.name, n, raw.description⟩ := by
  unfold fixedNumber
  rw [Noted.value_bind, Noted.value_pure]

theorem fixedNumber_int {raw : Record.FixedValue} {f : FixedValue NumberLiteral}
    (h : (fixedNumber label raw).value = some f) (hint : f.value = .int v) :
    ∃ n, WritesInteger (Text.trim raw.value).toList n ∧ NumberLiteral.Keeps n v := by
  rw [fixedNumber_value] at h
  obtain ⟨literal, hliteral, rfl⟩ := Option.map_eq_some_iff.mp h
  rw [show literal = .int v from hint] at hliteral
  exact numberLiteral_int hliteral

end Attribute

/-! ## Comparing -/

/-- **Bits have a fixed value if one of their readings is the integer, or if they are misread.** -/
theorem NumberLiteral.Keeps.matchesInt_iff {n v : Int} {w r : Nat} (h : Keeps n v) (hle : w ≤ 64)
    (hr : r < 2 ^ w) :
    (NumberLiteral.int v).matchesInt r (Word.signedOf w r) = true ↔
      n = r ∨ n = Word.signedOf w r ∨ Word.Misreads w r n := by
  -- all that matters of the width is whether the field is a word or at most half as large
  have hword : 2 ^ w ≤ 2 ^ 64 := Nat.pow_le_pow_right (by decide) hle
  have hnarrow : w < 64 → 2 ^ w ≤ 2 ^ 63 := fun hlt => Nat.pow_le_pow_right (by decide) (by omega)
  have hwide : ¬ w < 64 → 2 ^ w = 2 ^ 64 := fun hge => by rw [show w = 64 by omega]
  have hunsigned := Word.toUnsigned_eq h.isSigned
  unfold NumberLiteral.matchesInt Word.Misreads
  rw [Bool.or_eq_true, beq_iff_eq, beq_iff_eq, Word.signedOf_eq hr]
  generalize 2 ^ w = size at *
  generalize Word.toUnsigned v = kept at *
  cases h with
  | signed hn =>
      unfold Word.IsSigned Word.least Word.greatest Word.modulus at *
      split at hunsigned <;> split <;> omega
  | wrapped hlow hhigh =>
      unfold Word.greatest Word.modulus at *
      split at hunsigned <;> split <;> omega

/-! ## Fields -/

namespace Bytes

theorem bitsToNat_lt (bytes : Bytes) (first count : Nat) :
    bytes.bitsToNat first count < 2 ^ count := by
  induction count with
  | zero => exact Nat.one_pos
  | succ count ih =>
      have hbit : bytes.bit (first + count) < 2 := Nat.mod_lt _ (by decide)
      rw [bitsToNat_succ, Nat.pow_succ]
      omega

theorem toNat_lt (big : Bool) (bytes : Bytes) : bytes.toNat big < 2 ^ (8 * bytes.size) := by
  cases big with
  | true =>
      rw [toNat_big_eq_bits]
      exact bitsToNat_lt ..
  | false =>
      rw [toNat_little_eq_reverse, toNat_big_eq_bits, Array.size_reverse]
      exact bitsToNat_lt ..

end Bytes

namespace Value

variable {i start w r : Nat} {payload : Payload}

/-- A field of so many bits is that wide. -/
theorem width_leaf (hle : w ≤ 64) : (leaf i start (start + w) payload).width = w := by
  unfold width leaf
  dsimp only
  by_cases hal : start % 8 = 0 ∧ (start + w) % 8 = 0
  · rw [if_pos hal]
    dsimp only
    unfold Word.bytesOfBits
    omega
  · rw [if_neg hal]
    dsimp only
    omega

/-- Whether the payload is signed or not, both readings of the bits are recovered. -/
theorem readings?_leaf (hpos : 1 ≤ w) (hle : w ≤ 64) (hr : r < 2 ^ w) (signed : Bool) :
    (leaf i start (start + w)
      (if signed then .int (Word.signedOf w r) else .uint r)).readings? =
        some (r, Word.signedOf w r) := by
  unfold readings?
  rw [width_leaf hle, Nat.min_eq_left hle]
  cases signed with
  | true =>
      have hback : Word.unsignedOf w (Word.signedOf w r) = r := by
        unfold Word.unsignedOf Word.signedOf
        rw [BitVec.ofInt_toInt, BitVec.toNat_ofNat, Nat.mod_eq_of_lt hr]
      simp [leaf, hback]
  | false =>
      have hne : w ≠ 0 := by omega
      simp [leaf, hne]

end Value

namespace Decoder

variable {σ : Type} {d : Decoder σ} {ctx : Context} {i w r : Nat} {big : Bool} {c c' : Cursor σ}

/-- An integer that was taken has so many bits, and the cursor is after them. -/
theorem takeInteger_bits (h : d.takeInteger ctx i w big c = .ok r c') :
    1 ≤ w ∧ w ≤ 64 ∧ r < 2 ^ w ∧ c'.pos = c.pos + w ∧ c'.pos + 7 < Word.modulus := by
  unfold takeInteger at h
  obtain ⟨hbits, h⟩ := Reader.require_bind h
  rw [Reader.pos_bind] at h
  refine ⟨hbits.1, hbits.2, ?_⟩
  split at h
  · rename_i hal
    obtain ⟨bytes, c₁, htake, h⟩ := Reader.bind_ok h
    cases h
    obtain ⟨_, _, c₂, hfetch, hcount, hword, hc'⟩ := take_ok htake
    have hsize := fetchChunks_size_le _ hfetch (Nat.zero_le _)
    have hwidth : 8 * bytes.size = w := by omega
    have hlt := bytes.toNat_lt big
    rw [hwidth] at hlt
    rw [hc']
    dsimp only
    refine ⟨hlt, by omega, ?_⟩
    unfold Word.modulus at *
    omega
  · obtain ⟨hword, _, bytes, c₁, _, _, hc', rfl⟩ := takeBits_ok h
    rw [Nat.add_sub_cancel_left, hc']
    exact ⟨bytes.bitsToNat_lt .., rfl, hword⟩

/-- The field of an integer: its bits, signed or unsigned. -/
def integerField (d : Decoder σ) (i w r start stop : Nat) : Value :=
  .leaf i start stop (if d.document.signed i then .int (Word.signedOf w r) else .uint r)

/-- Reading an integer is taking it and comparing it with the fixed values. -/
theorem readNumber_integer {body : NumberBody} (htype : d.document.numberType i = .integer)
    (hbits : d.lengthBits ctx i = .ok w) (hbig : d.bigEndian i = .ok big)
    (htake : d.takeInteger ctx i w big c = .ok r c') :
    d.readNumber ctx i body c =
      d.requireMatch i (body.accepts (d.integerField i w r c.pos c'.pos))
        (d.integerField i w r c.pos c'.pos) c' := by
  have hpayload : d.takeNumber ctx i w big c =
      .ok (if d.document.signed i then .int (Word.signedOf w r) else .uint r) c' := by
    unfold takeNumber readInteger
    rw [htype]
    dsimp only
    rw [Reader.bind_of_ok htake]
    rfl
  obtain ⟨_, _, _, hstop, hword⟩ := takeInteger_bits htake
  unfold readNumber
  rw [Reader.pos_bind, hbits, hbig]
  change (d.takeNumber ctx i w big >>= _) c = _
  rw [Reader.bind_of_ok hpayload]
  refine Reader.bind_of_ok ?_
  unfold finishLeaf
  rw [Reader.pos_bind, Reader.requireWord_of hword, Reader.require_of (by omega)]
  rfl

/-- With one fixed value, a field that has to match is compared with that. -/
theorem accepts_integerField {body : NumberBody} {f : FixedValue NumberLiteral}
    (hvalues : body.values = [f]) (hmasks : body.masks = [])
    (htake : d.takeInteger ctx i w big c = .ok r c') :
    body.accepts (d.integerField i w r c.pos c'.pos) =
      f.value.matchesInt r (Word.signedOf w r) := by
  obtain ⟨hpos, hle, hr, hstop, _⟩ := takeInteger_bits htake
  have hreadings : (d.integerField i w r c.pos (c.pos + w)).readings? =
      some (r, Word.signedOf w r) := Value.readings?_leaf hpos hle hr (d.document.signed i)
  have hholds : ∃ n, (d.integerField i w r c.pos c'.pos).Holds n := by
    unfold integerField
    cases d.document.signed i with
    | true => exact ⟨_, .int rfl⟩
    | false => exact ⟨_, .uint rfl⟩
  obtain ⟨n, hholds⟩ := hholds
  rw [← hstop] at hreadings
  rw [hholds.accepts_eq (.inl (by simp [hvalues])) hreadings]
  simp [NumberBody.acceptsInt, hvalues, hmasks]

/-- **Fixed values of integers are compared as numbers, unless the bits are misread.** The text of a
fixed value that is kept as an integer writes one integer and no other, at least the least signed
word and less than two to the power 64. A field that has to match and takes some bits, signed or
not, is read exactly if one of the readings of these bits is that integer or they are misread, and
otherwise fails and is kept as what was decoded. -/
theorem readNumber_literal {label : Label} {text : Record.FixedValue} {f : FixedValue NumberLiteral}
    {v : Int} {body : NumberBody} (hread : (Attribute.fixedNumber label text).value = some f)
    (hint : f.value = .int v) (hvalues : body.values = [f]) (hmasks : body.masks = [])
    (hmust : d.document.mustMatch i = true) (htype : d.document.numberType i = .integer)
    (hbits : d.lengthBits ctx i = .ok w) (hbig : d.bigEndian i = .ok big)
    (htake : d.takeInteger ctx i w big c = .ok r c') :
    ∃ n, (∀ m, Attribute.WritesInteger (Text.trim text.value).toList m ↔ m = n) ∧
      Word.least ≤ n ∧ n < Word.modulus ∧ 1 ≤ w ∧ w ≤ 64 ∧ r < 2 ^ w ∧
      (d.readNumber ctx i body c = .ok (d.integerField i w r c.pos c'.pos) c' ↔
        n = r ∨ n = Word.signedOf w r ∨ Word.Misreads w r n) ∧
      (d.readNumber ctx i body c =
          .error { cause := .mustMatch (d.integerField i w r c.pos c'.pos).payload.shown,
                   salvage := some (d.integerField i w r c.pos c'.pos) } c' ↔
        ¬ (n = r ∨ n = Word.signedOf w r ∨ Word.Misreads w r n)) := by
  obtain ⟨n, hwrites, hkeeps⟩ := Attribute.fixedNumber_int hread hint
  obtain ⟨hpos, hle, hr, _⟩ := takeInteger_bits htake
  have hrange : Word.least ≤ n ∧ n < Word.modulus := hkeeps.range
  refine ⟨n, fun m => ⟨fun hm => hm.unique hwrites, fun hm => hm ▸ hwrites⟩, hrange.1, hrange.2,
    hpos, hle, hr, ?_⟩
  rw [readNumber_integer htype hbits hbig htake, accepts_integerField hvalues hmasks htake, hint,
    ← hkeeps.matchesInt_iff hle hr]
  unfold requireMatch
  rw [hmust]
  cases (NumberLiteral.int v).matchesInt r (Word.signedOf w r) with
  | true => exact ⟨⟨fun _ => rfl, fun _ => rfl⟩, nofun, fun h => absurd rfl h⟩
  | false => exact ⟨⟨nofun, nofun⟩, fun _ => Bool.false_ne_true, fun _ => rfl⟩

/-! ## A byte with a fixed value -/

/-- An integer of one byte that has one fixed value. -/
def fixedByte (signed : Bool) (f : FixedValue NumberLiteral) : NumberBody where
  length := some (.constant 1)
  signed := some signed
  values := [f]

/-- A decoder of such a byte. -/
def byteDecoder (signed : Bool) (f : FixedValue NumberLiteral) : Decoder Bytes where
  document := .ofParts "" {} #[{ body := .number (fixedByte signed f) }] #[]
  source := .plain

/-- A fixed value without a name. -/
def unnamed (v : Int) : FixedValue NumberLiteral := ⟨"", .int v, ""⟩

/-- A byte of ones has the fixed value 255, also where it is read as -1. -/
theorem readNumber_literal_ones :
    Attribute.WritesInteger "0xFF".toList 255 ∧
    ∃ field c, (byteDecoder true (unnamed 255)).readNumber {} 0 (fixedByte true (unnamed 255))
        { source := #[0xFF] } = .ok field c ∧
      field.payload = .int (-1) := by
  have hwrites : Attribute.WritesInteger "0xFF".toList 255 :=
    .integer (.plain (.mk (.hexadecimal (.inl rfl)) (Digits.read?_eq_some_iff.mp rfl)))
  have hread : (Attribute.fixedNumber ⟨.number, 0, ""⟩ ⟨"", " 0xFF ", ""⟩).value =
      some (unnamed 255) := by decide
  have hvalues : (fixedByte true (unnamed 255)).values = [unnamed 255] := rfl
  have htake : (byteDecoder true (unnamed 255)).takeInteger {} 0 8 false
      { source := #[0xFF] } = .ok 255 { pos := 8, source := #[0xFF] } := by cbv
  obtain ⟨n, hn, _, _, _, _, _, hok, _⟩ := readNumber_literal hread rfl hvalues rfl (by cbv)
    (by cbv) (by cbv) (by cbv) htake
  have hvalue : 255 = n := (hn 255).mp hwrites
  exact ⟨hwrites, _, _, hok.mpr (.inl hvalue.symm), by cbv⟩

/-- A byte of ones also has the fixed value 18446744073709551615, which is neither 255 nor -1. -/
theorem readNumber_wrapped :
    Attribute.WritesInteger "18446744073709551615".toList 18446744073709551615 ∧
    ∃ f field c,
      (Attribute.fixedNumber ⟨.number, 0, ""⟩ ⟨"", "18446744073709551615", ""⟩).value = some f ∧
      (byteDecoder false f).takeInteger {} 0 8 false { source := #[0xFF] } = .ok 255 c ∧
      (byteDecoder false f).readNumber {} 0 (fixedByte false f) { source := #[0xFF] } =
        .ok field c ∧
      ¬ ((18446744073709551615 : Int) = (255 : Nat) ∨
        18446744073709551615 = Word.signedOf 8 255) := by
  have hwrites : Digits.Writes 10 "18446744073709551615".toList 18446744073709551615 :=
    Digits.read?_eq_some_iff.mp rfl
  have hread : (Attribute.fixedNumber ⟨.number, 0, ""⟩ ⟨"", "18446744073709551615", ""⟩).value =
      some (unnamed (-1)) := by decide
  refine ⟨.integer (.plain (.mk .decimal hwrites)), unnamed (-1),
    { element := 0, offset := 0, length := 1, payload := .uint 255 },
    { pos := 8, source := #[0xFF] }, hread, ?_, ?_, ?_⟩
  · cbv
  · cbv
  · decide

end Decoder

end BinaryGrammar
