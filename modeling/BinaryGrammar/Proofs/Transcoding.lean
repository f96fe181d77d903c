import BinaryGrammar.Proofs.Taking

/-!
# Writing texts

The inverse of reading a text in an encoding. A character is written as one to four bytes in UTF-8,
as one byte in the two encodings of one byte, if it has one there, and as one or two code units in
UTF-16. What is written is read back; it is made of whole code units; and a character other than
U+0000 is written without a unit of zeros.
-/

set_option autoImplicit false

namespace BinaryGrammar

/-! ## Bytes in units -/

namespace Bytes

variable {us : List (List UInt8)} {width : Nat}

theorem length_flatten_units (h : ∀ u ∈ us, u.length = width) :
    us.flatten.length = us.length * width := by
  induction us with
  | nil => rw [List.flatten_nil, List.length_nil, List.length_nil, Nat.zero_mul]
  | cons u us ih =>
      have hu := h u List.mem_cons_self
      have hrest := ih fun w hw => h w (List.mem_cons_of_mem _ hw)
      rw [List.flatten_cons, List.length_append, hu, hrest, List.length_cons, Nat.succ_mul,
        Nat.add_comm]

/-- In bytes that are made of units, none of which satisfies a test, no unit is found. -/
theorem findUnit?_flatten_units (hwidth : 0 < width) {p : Bytes → Bool} :
    ∀ {us : List (List UInt8)}, (∀ u ∈ us, u.length = width) → (∀ u ∈ us, p u.toArray = false) →
    findUnit? us.flatten.toArray width (us.flatten.toArray.size / width) p = none := by
  intro us
  induction us with
  | nil =>
      intro _ _
      exact findUnit?_of_lt hwidth p
  | cons u us ih =>
      intro hlength htest
      have hu : u.toArray.size = width := hlength u List.mem_cons_self
      have hrest := ih (fun w hw => hlength w (List.mem_cons_of_mem _ hw))
        fun w hw => htest w (List.mem_cons_of_mem _ hw)
      have hunit : unitAt u.toArray width 0 = u.toArray := by
        unfold unitAt
        rw [Nat.zero_mul, Nat.zero_add, ← hu, Array.extract_size]
      have hfirst : findUnit? u.toArray width (u.toArray.size / width) p = none := by
        rw [hu, Nat.div_self hwidth]
        unfold findUnit?
        rw [List.find?_eq_none]
        intro k hk
        rw [List.mem_range, Nat.lt_one_iff] at hk
        rw [hk, hunit, htest u List.mem_cons_self]
        exact Bool.false_ne_true
      have hmod : u.toArray.size % width = 0 := by rw [hu, Nat.mod_self]
      rw [List.flatten_cons, ← List.append_toArray, unitCount_append hwidth hmod,
        findUnit?_append hmod, hfirst, hrest]
      rfl

end Bytes

namespace Text

/-! ## UTF-8 -/

section

variable {index : Nat} {acc : List Char} {a b c d : UInt8} {rest : List UInt8} {lead : Lead}

theorem inRange_iff {low high : Nat} :
    inRange low high b = true ↔ low ≤ b.toNat ∧ b.toNat ≤ high := by
  unfold inRange
  rw [Bool.and_eq_true, decide_eq_true_iff, decide_eq_true_iff]

theorem decodeUtf8From_one (ha : a.toNat < 0x80) :
    decodeUtf8From index acc (a :: rest) =
      decodeUtf8From (index + 1) (Char.ofNat a.toNat :: acc) rest := by
  rw [decodeUtf8From, if_pos ha]

/-- A first byte of a longer sequence, and a second byte in the range that it asks for. -/
structure Leads (a b : UInt8) (lead : Lead) : Prop where
  above : ¬a.toNat < 0x80
  found : lead? a.toNat = some lead
  inside : inRange lead.low lead.high b = true

theorem decodeUtf8From_two (h : Leads a b lead) (hfollow : lead.follow = 1) :
    decodeUtf8From index acc (a :: b :: rest) =
      decodeUtf8From (index + 2) (Char.ofNat (continued lead.bits b) :: acc) rest := by
  rw [decodeUtf8From, if_neg h.above, h.found]
  dsimp only
  rw [h.inside, if_neg (by decide), if_pos hfollow]

theorem decodeUtf8From_three (h : Leads a b lead) (hfollow : lead.follow = 2)
    (hc : isContinuation c = true) :
    decodeUtf8From index acc (a :: b :: c :: rest) =
      decodeUtf8From (index + 3)
        (Char.ofNat (continued (continued lead.bits b) c) :: acc) rest := by
  rw [decodeUtf8From, if_neg h.above, h.found]
  dsimp only
  rw [h.inside, if_neg (by decide), if_neg (by omega), hc, if_neg (by decide), if_pos hfollow]

theorem decodeUtf8From_four (h : Leads a b lead) (hfollow : lead.follow = 3)
    (hc : isContinuation c = true) (hd : isContinuation d = true) :
    decodeUtf8From index acc (a :: b :: c :: d :: rest) =
      decodeUtf8From (index + 4)
        (Char.ofNat (continued (continued (continued lead.bits b) c) d) :: acc) rest := by
  rw [decodeUtf8From, if_neg h.above, h.found]
  dsimp only
  rw [h.inside, if_neg (by decide), if_neg (by omega), hc, if_neg (by decide), if_neg (by omega),
    hd, if_neg (by decide)]

end

theorem toNat_byte {n : Nat} (h : n < 256) : (UInt8.ofNat n).toNat = n := by
  rw [UInt8.toNat_ofNat']
  omega

/-- A byte that carries six bits continues a sequence. -/
theorem isContinuation_byte (n : Nat) : isContinuation (UInt8.ofNat (n % 64 + 128)) = true := by
  unfold isContinuation
  rw [inRange_iff, toNat_byte (by omega)]
  omega

theorem continued_byte (bits n : Nat) :
    continued bits (UInt8.ofNat (n % 64 + 128)) = bits * 64 + n % 64 := by
  unfold continued
  rw [toNat_byte (by omega)]
  omega

/-- Two bytes that begin a sequence, by their numbers. -/
theorem Leads.of_bytes {a b : Nat} {lead : Lead} (ha : 0x80 ≤ a ∧ a < 256)
    (hfound : lead? a = some lead) (hb : lead.low ≤ b ∧ b ≤ lead.high) (hlt : b < 256) :
    Leads (UInt8.ofNat a) (UInt8.ofNat b) lead := by
  have hbyte := toNat_byte ha.2
  refine ⟨by omega, ?_, ?_⟩
  · rw [hbyte]
    exact hfound
  · rw [inRange_iff, toNat_byte hlt]
    exact hb

section

variable {v : Nat}

theorem leads_two (hlow : 0x7F < v) (hhigh : v ≤ 0x7FF) : ∃ lead,
    Leads (UInt8.ofNat (v / 64 % 32 + 192)) (UInt8.ofNat (v % 64 + 128)) lead ∧
      lead.follow = 1 ∧ lead.bits = v / 64 := by
  refine ⟨⟨1, 0x80, 0xBF, v / 64 % 32 + 192 - 0xC0⟩,
    .of_bytes (by omega) ?_ (by dsimp only; omega) (by omega), rfl, by dsimp only; omega⟩
  unfold lead?
  rw [if_neg (by omega), if_pos (by omega)]

/-- Three bytes: the first two begin no character that could be written shorter, and no
surrogate. -/
theorem leads_three (hlow : 0x7FF < v) (hhigh : v ≤ 0xFFFF) (hvalid : v < 0xD800 ∨ 0xDFFF < v) :
    ∃ lead, Leads (UInt8.ofNat (v / 4096 % 16 + 224)) (UInt8.ofNat (v / 64 % 64 + 128)) lead ∧
      lead.follow = 2 ∧ lead.bits = v / 4096 := by
  by_cases hfirst : v / 4096 = 0
  · -- the bits of the second byte alone say that two bytes are too few
    refine ⟨⟨2, 0xA0, 0xBF, 0⟩, .of_bytes (by omega) ?_ (by dsimp only; omega) (by omega), rfl,
      hfirst.symm⟩
    rw [hfirst]
    rfl
  · by_cases hsurrogates : v / 4096 = 0xD
    · refine ⟨⟨2, 0x80, 0x9F, 0xD⟩, .of_bytes (by omega) ?_ (by dsimp only; omega) (by omega), rfl,
        hsurrogates.symm⟩
      rw [hsurrogates]
      rfl
    · refine ⟨⟨2, 0x80, 0xBF, v / 4096 % 16 + 224 - 0xE0⟩,
        .of_bytes (by omega) ?_ (by dsimp only; omega) (by omega), rfl, by dsimp only; omega⟩
      unfold lead?
      rw [if_neg (by omega), if_neg (by omega), if_neg (by omega), if_neg (by omega),
        if_pos (by omega)]

/-- Four bytes: the first two begin no character that could be written shorter, and none beyond the
last. -/
theorem leads_four (hlow : 0xFFFF < v) (hhigh : v < 0x110000) :
    ∃ lead, Leads (UInt8.ofNat (v / 262144 % 8 + 240)) (UInt8.ofNat (v / 4096 % 64 + 128)) lead ∧
      lead.follow = 3 ∧ lead.bits = v / 262144 := by
  by_cases hfirst : v / 262144 = 0
  · refine ⟨⟨3, 0x90, 0xBF, 0⟩, .of_bytes (by omega) ?_ (by dsimp only; omega) (by omega), rfl,
      hfirst.symm⟩
    rw [hfirst]
    rfl
  · by_cases hlast : v / 262144 = 4
    · refine ⟨⟨3, 0x80, 0x8F, 4⟩, .of_bytes (by omega) ?_ (by dsimp only; omega) (by omega), rfl,
        hlast.symm⟩
      rw [hlast]
      rfl
    · refine ⟨⟨3, 0x80, 0xBF, v / 262144 % 8 + 240 - 0xF0⟩,
        .of_bytes (by omega) ?_ (by dsimp only; omega) (by omega), rfl, by dsimp only; omega⟩
      unfold lead?
      rw [if_neg (by omega), if_neg (by omega), if_neg (by omega), if_neg (by omega),
        if_neg (by omega), if_neg (by omega), if_pos (by omega)]

end

theorem toNat_valid (c : Char) : c.toNat < 0xD800 ∨ 0xDFFF < c.toNat ∧ c.toNat < 0x110000 := c.valid

/-- **One character**: what is written in UTF-8 is read as it. -/
theorem decodeUtf8From_char (index : Nat) (acc : List Char) (c : Char) (rest : List UInt8) :
    decodeUtf8From index acc (String.utf8EncodeChar c ++ rest) =
      decodeUtf8From (index + (String.utf8EncodeChar c).length) (c :: acc) rest := by
  have hvalid := toNat_valid c
  have hchar {n : Nat} (h : n = c.toNat) : Char.ofNat n = c := by rw [h, Char.ofNat_toNat]
  have hval : c.val.toNat = c.toNat := rfl
  unfold String.utf8EncodeChar
  dsimp only
  rw [hval]
  -- as many cases as there are lengths; each time the bits come together again
  by_cases hone : c.toNat ≤ 0x7F
  · rw [if_pos hone]
    have hbyte : (UInt8.ofNat c.toNat).toNat = c.toNat := toNat_byte (by omega)
    refine (decodeUtf8From_one (by omega)).trans ?_
    rw [hchar hbyte]
    rfl
  · rw [if_neg hone]
    by_cases htwo : c.toNat ≤ 0x7FF
    · rw [if_pos htwo]
      obtain ⟨lead, hlead, hfollow, hbits⟩ := leads_two (show 0x7F < c.toNat by omega) htwo
      refine (decodeUtf8From_two hlead hfollow).trans ?_
      rw [continued_byte, hbits, hchar (by omega)]
      rfl
    · rw [if_neg htwo]
      by_cases hthree : c.toNat ≤ 0xFFFF
      · rw [if_pos hthree]
        obtain ⟨lead, hlead, hfollow, hbits⟩ :=
          leads_three (show 0x7FF < c.toNat by omega) hthree (by omega)
        refine (decodeUtf8From_three hlead hfollow (isContinuation_byte _)).trans ?_
        rw [continued_byte, continued_byte, hbits, hchar (by omega)]
        rfl
      · rw [if_neg hthree]
        obtain ⟨lead, hlead, hfollow, hbits⟩ :=
          leads_four (show 0xFFFF < c.toNat by omega) (by omega)
        refine (decodeUtf8From_four hlead hfollow (isContinuation_byte _)
          (isContinuation_byte _)).trans ?_
        rw [continued_byte, continued_byte, continued_byte, hbits, hchar (by omega)]
        rfl

/-- The bytes of a character other than U+0000 are not zero. -/
theorem utf8EncodeChar_byte {c : Char} (hc : c.toNat ≠ 0) {b : UInt8}
    (hb : b ∈ String.utf8EncodeChar c) : ∃ n, n ≠ 0 ∧ n < 256 ∧ b = UInt8.ofNat n := by
  have hval : c.val.toNat = c.toNat := rfl
  unfold String.utf8EncodeChar at hb
  dsimp only at hb
  rw [hval] at hb
  split at hb
  · rw [List.mem_singleton] at hb
    exact ⟨_, hc, by omega, hb⟩
  · -- the first byte and the ones that continue it have their highest bit set
    have hhigh {n : Nat} (h : 128 ≤ n ∧ n < 256) (hn : b = UInt8.ofNat n) :
        ∃ n, n ≠ 0 ∧ n < 256 ∧ b = UInt8.ofNat n := ⟨n, by omega, h.2, hn⟩
    split at hb
    · simp only [List.mem_cons, List.not_mem_nil, or_false] at hb
      rcases hb with hb | hb <;> exact hhigh (by omega) hb
    · split at hb
      · simp only [List.mem_cons, List.not_mem_nil, or_false] at hb
        rcases hb with hb | hb | hb <;> exact hhigh (by omega) hb
      · simp only [List.mem_cons, List.not_mem_nil, or_false] at hb
        rcases hb with hb | hb | hb | hb <;> exact hhigh (by omega) hb

/-- The characters of a text, one after the other. -/
theorem decodeUtf8From_chars : ∀ (cs : List Char) (index : Nat) (acc : List Char),
    decodeUtf8From index acc (cs.flatMap String.utf8EncodeChar) = .ok (acc.reverse ++ cs) := by
  intro cs
  induction cs with
  | nil =>
      intro index acc
      rw [List.append_nil]
      rfl
  | cons c cs ih =>
      intro index acc
      rw [List.flatMap_cons, decodeUtf8From_char, ih, List.reverse_cons, List.append_assoc]
      rfl

/-! ## UTF-16 -/

/-- The code units of a character: one, or a pair of surrogates. -/
def utf16Units (c : Char) : List Nat :=
  if c.toNat < 0x10000 then [c.toNat]
  else [0xD800 + (c.toNat - 0x10000) / 0x400, 0xDC00 + (c.toNat - 0x10000) % 0x400]

/-- The two bytes of a code unit. -/
def unitBytes (big : Bool) (u : Nat) : List UInt8 :=
  if big then [UInt8.ofNat (u / 256), UInt8.ofNat (u % 256)]
  else [UInt8.ofNat (u % 256), UInt8.ofNat (u / 256)]

theorem utf16Units_lt {c : Char} {u : Nat} (h : u ∈ utf16Units c) : u < 0x10000 := by
  have hvalid := toNat_valid c
  unfold utf16Units at h
  split at h
  · rw [List.mem_singleton] at h
    omega
  · simp only [List.mem_cons, List.not_mem_nil, or_false] at h
    omega

theorem decodeUtf16From_char (acc : List Char) (c : Char) (rest : List Nat) :
    decodeUtf16From acc (utf16Units c ++ rest) = decodeUtf16From (c :: acc) rest := by
  have hvalid := toNat_valid c
  unfold utf16Units
  split
  · rw [List.singleton_append, decodeUtf16From.eq_def]
    dsimp only
    rw [if_pos (by omega), Char.ofNat_toNat]
  · -- a high surrogate and a low one
    change decodeUtf16From acc (_ :: _ :: rest) = _
    rw [decodeUtf16From.eq_def]
    dsimp only
    rw [if_neg (by omega), if_neg (by omega), if_pos (by omega)]
    have hjoined : 0x10000 + (0xD800 + (c.toNat - 0x10000) / 0x400 - 0xD800) * 0x400 +
        (0xDC00 + (c.toNat - 0x10000) % 0x400 - 0xDC00) = c.toNat := by omega
    rw [hjoined, Char.ofNat_toNat]

theorem decodeUtf16From_chars : ∀ (cs : List Char) (acc : List Char),
    decodeUtf16From acc (cs.flatMap utf16Units) = .ok (acc.reverse ++ cs) := by
  intro cs
  induction cs with
  | nil =>
      intro acc
      rw [List.append_nil]
      rfl
  | cons c cs ih =>
      intro acc
      rw [List.flatMap_cons, decodeUtf16From_char, ih, List.reverse_cons, List.append_assoc]
      rfl

/-- The code units are read from their bytes. -/
theorem unitsOf_unitBytes (big : Bool) : ∀ us : List Nat, (∀ u ∈ us, u < 0x10000) →
    unitsOf big (us.flatMap (unitBytes big)) = us := by
  intro us
  induction us with
  | nil =>
      intro _
      rfl
  | cons u us ih =>
      intro hus
      have hu := hus u List.mem_cons_self
      have hhigh : (UInt8.ofNat (u / 256)).toNat = u / 256 := toNat_byte (by omega)
      have hlow : (UInt8.ofNat (u % 256)).toNat = u % 256 := toNat_byte (by omega)
      have hrest := ih fun w hw => hus w (List.mem_cons_of_mem _ hw)
      rw [List.flatMap_cons]
      cases big with
      | true =>
          change unitsOf true (_ :: _ :: us.flatMap (unitBytes true)) = _
          rw [unitsOf, if_pos rfl, hhigh, hlow, hrest]
          congr 1
          omega
      | false =>
          change unitsOf false (_ :: _ :: us.flatMap (unitBytes false)) = _
          rw [unitsOf, if_neg (by decide), hhigh, hlow, hrest]
          congr 1
          omega

/-! ## Encodings -/

namespace Encoding

/-- Whether an encoding has a character. -/
def covers (encoding : Encoding) (c : Char) : Bool :=
  match encoding with
  | ascii => c.toNat < 0x80
  | latin1 => c.toNat < 0x100
  | _ => true

/-- A text can be written in an encoding that has all its characters. -/
def Encodable (encoding : Encoding) (s : String) : Prop := ∀ c ∈ s.toList, encoding.covers c

/-- The code units of a character, each with its bytes. -/
def charUnits (encoding : Encoding) (c : Char) : List (List UInt8) :=
  match encoding with
  | utf8 => (String.utf8EncodeChar c).map ([·])
  | ascii => [[UInt8.ofNat c.toNat]]
  | latin1 => [[UInt8.ofNat c.toNat]]
  | utf16 big => (utf16Units c).map (unitBytes big)

/-- The code units of a text. -/
def units (encoding : Encoding) (s : String) : List (List UInt8) :=
  s.toList.flatMap encoding.charUnits

/-- The bytes that write a text. -/
def encode (encoding : Encoding) (s : String) : Bytes := (encoding.units s).flatten.toArray

variable {encoding : Encoding} {s : String}

/-- All code units are equally wide. -/
theorem length_of_mem_units {u : List UInt8} (h : u ∈ encoding.units s) :
    u.length = unitWidth (some encoding) := by
  obtain ⟨c, _, hu⟩ := List.mem_flatMap.mp h
  cases encoding with
  | utf8 =>
      obtain ⟨b, _, rfl⟩ := List.mem_map.mp hu
      rfl
  | ascii =>
      rw [List.mem_singleton.mp hu]
      rfl
  | latin1 =>
      rw [List.mem_singleton.mp hu]
      rfl
  | utf16 big =>
      obtain ⟨n, _, rfl⟩ := List.mem_map.mp hu
      cases big <;> rfl

theorem size_encode (encoding : Encoding) (s : String) :
    (encoding.encode s).size = (encoding.units s).length * unitWidth (some encoding) :=
  Bytes.length_flatten_units fun _ hu => length_of_mem_units hu

/-- The bytes of a text are those of its characters one after the other. -/
theorem toList_encode (encoding : Encoding) (s : String) : (encoding.encode s).toList =
    s.toList.flatMap fun c => (encoding.charUnits c).flatten := by
  change (s.toList.flatMap encoding.charUnits).flatten = _
  rw [← List.flatMap_id, List.flatMap_assoc]
  simp only [List.flatMap_id]

theorem flatten_singletons (bs : List UInt8) : (bs.map ([·])).flatten = bs := by
  induction bs with
  | nil => rfl
  | cons b bs ih => exact congrArg (b :: ·) ih

/-- A character of an encoding of one byte is the one with the number of its byte. -/
theorem chars_of_bytes {cs : List Char} (h : ∀ c ∈ cs, c.toNat < 256) :
    (cs.flatMap fun c => [UInt8.ofNat c.toNat]).map (fun b => Char.ofNat b.toNat) = cs := by
  induction cs with
  | nil => rfl
  | cons c cs ih =>
      have hbyte : (UInt8.ofNat c.toNat).toNat = c.toNat := toNat_byte (h c List.mem_cons_self)
      have hrest := ih fun d hd => h d (List.mem_cons_of_mem _ hd)
      rw [List.flatMap_cons, List.map_append, hrest]
      change Char.ofNat (UInt8.ofNat c.toNat).toNat :: cs = _
      rw [hbyte, Char.ofNat_toNat]

/-- **What is written is read back.** -/
theorem decode_encode (h : encoding.Encodable s) : encoding.decode (encoding.encode s) = .ok s := by
  have hlist := toList_encode encoding s
  unfold decode
  cases encoding with
  | utf8 =>
      have hbytes : (utf8.encode s).toList = s.toList.flatMap String.utf8EncodeChar := by
        simpa only [charUnits, flatten_singletons] using hlist
      dsimp only
      rw [hbytes, decodeUtf8From_chars]
      exact congrArg Except.ok String.ofList_toList
  | ascii =>
      have hbytes :
          (ascii.encode s).toList = s.toList.flatMap fun c => [UInt8.ofNat c.toNat] := hlist
      have hsmall (c : Char) (hc : c ∈ s.toList) : c.toNat < 0x80 := of_decide_eq_true (h c hc)
      have hall : ((ascii.encode s).all fun b => decide (b.toNat < 0x80)) = true := by
        rw [← Array.all_toList, hbytes, List.all_eq_true]
        intro b hb
        obtain ⟨c, hc, hb⟩ := List.mem_flatMap.mp hb
        have hlt := hsmall c hc
        rw [List.mem_singleton.mp hb, toNat_byte (by omega)]
        exact decide_eq_true hlt
      dsimp only
      rw [if_pos hall, hbytes, chars_of_bytes fun c hc => Nat.lt_trans (hsmall c hc) (by decide)]
      exact congrArg Except.ok String.ofList_toList
  | latin1 =>
      have hbytes : (latin1.encode s).toList = s.toList.flatMap fun c => [UInt8.ofNat c.toNat] :=
        hlist
      have hsmall (c : Char) (hc : c ∈ s.toList) : c.toNat < 256 := of_decide_eq_true (h c hc)
      dsimp only
      rw [hbytes, chars_of_bytes hsmall]
      exact congrArg Except.ok String.ofList_toList
  | utf16 big =>
      have hbytes : ((utf16 big).encode s).toList =
          (s.toList.flatMap utf16Units).flatMap (unitBytes big) := by
        rw [hlist, List.flatMap_assoc]
        rfl
      have hlt (u : Nat) (hu : u ∈ s.toList.flatMap utf16Units) : u < 0x10000 := by
        obtain ⟨c, _, hc⟩ := List.mem_flatMap.mp hu
        exact utf16Units_lt hc
      have heven : ¬((utf16 big).encode s).size % 2 ≠ 0 := by
        rw [size_encode]
        exact not_not_intro (Nat.mul_mod_left _ 2)
      dsimp only
      rw [if_neg heven, hbytes, unitsOf_unitBytes big _ hlt, decodeUtf16From_chars]
      exact congrArg Except.ok String.ofList_toList

/-- A unit with a byte other than zero is no unit of zeros. -/
theorem not_all_zero {u : List UInt8} {n : Nat} (hn : n ≠ 0) (hlt : n < 256)
    (hmem : UInt8.ofNat n ∈ u) : u.toArray.all (· == 0) = false := by
  rw [List.all_toArray, List.all_eq_false]
  refine ⟨UInt8.ofNat n, hmem, fun hzero => hn ?_⟩
  rw [← toNat_byte hlt, eq_of_beq hzero]
  rfl

/-- A character other than U+0000 is written without a unit of zeros. -/
theorem charUnits_ne_zeros {c : Char} (hc : c.toNat ≠ 0) (hcovers : encoding.covers c)
    {u : List UInt8} (hu : u ∈ encoding.charUnits c) : u.toArray.all (· == 0) = false := by
  have hvalid := toNat_valid c
  cases encoding with
  | utf8 =>
      obtain ⟨b, hb, rfl⟩ := List.mem_map.mp hu
      obtain ⟨n, hn, hlt, rfl⟩ := utf8EncodeChar_byte hc hb
      exact not_all_zero hn hlt (List.mem_singleton_self _)
  | ascii =>
      have hlt : c.toNat < 0x80 := of_decide_eq_true hcovers
      rw [List.mem_singleton.mp hu]
      exact not_all_zero hc (by omega) (List.mem_singleton_self _)
  | latin1 =>
      have hlt : c.toNat < 0x100 := of_decide_eq_true hcovers
      rw [List.mem_singleton.mp hu]
      exact not_all_zero hc hlt (List.mem_singleton_self _)
  | utf16 big =>
      obtain ⟨n, hn, rfl⟩ := List.mem_map.mp hu
      have hlt := utf16Units_lt hn
      have hne : n ≠ 0 := by
        unfold utf16Units at hn
        split at hn
        · rw [List.mem_singleton.mp hn]
          exact hc
        · simp only [List.mem_cons, List.not_mem_nil, or_false] at hn
          omega
      have hbytes : UInt8.ofNat (n / 256) ∈ unitBytes big n ∧
          UInt8.ofNat (n % 256) ∈ unitBytes big n := by
        cases big
        · exact ⟨List.mem_cons_of_mem _ (List.mem_singleton_self _), List.mem_cons_self⟩
        · exact ⟨List.mem_cons_self, List.mem_cons_of_mem _ (List.mem_singleton_self _)⟩
      by_cases hlow : n % 256 = 0
      · exact not_all_zero (show n / 256 ≠ 0 by omega) (by omega) hbytes.1
      · exact not_all_zero hlow (by omega) hbytes.2

/-- A text is written in whole code units. -/
theorem encode_mod_unitWidth (encoding : Encoding) (s : String) :
    (encoding.encode s).size % unitWidth (some encoding) = 0 := by
  rw [size_encode, Nat.mul_mod_left]

theorem unitWidth_cases (encoding : Encoding) :
    unitWidth (some encoding) = 1 ∨ unitWidth (some encoding) = 2 := by
  cases encoding with
  | utf16 big => exact Or.inr rfl
  | _ => exact Or.inl rfl

/-- A byte stands for one code unit. -/
theorem size_unit (encoding : Encoding) (b : UInt8) :
    (unit (some encoding) b).size = unitWidth (some encoding) := by
  cases encoding with
  | utf16 big => cases big <;> rfl
  | _ => rfl

/-- A unit that is none of those of a text is not found in its bytes. -/
theorem findUnit?_encode {p : Bytes → Bool} (h : ∀ u ∈ encoding.units s, p u.toArray = false) :
    (encoding.encode s).findUnit? (unitWidth (some encoding))
      ((encoding.encode s).size / unitWidth (some encoding)) p = none := by
  have hwidth := unitWidth_cases encoding
  exact Bytes.findUnit?_flatten_units (by omega) (fun _ hu => length_of_mem_units hu) h

/-- In a text without U+0000 there is no unit of zeros. -/
theorem units_ne_zeros (h : encoding.Encodable s) (hnul : '\x00' ∉ s.toList) {u : List UInt8}
    (hu : u ∈ encoding.units s) : u.toArray.all (· == 0) = false := by
  obtain ⟨c, hc, hu⟩ := List.mem_flatMap.mp hu
  refine charUnits_ne_zeros (fun hzero => hnul ?_) (h c hc) hu
  have hchar := Char.ofNat_toNat c
  rw [hzero] at hchar
  rw [show '\x00' = Char.ofNat 0 from rfl, hchar]
  exact hc

end Encoding

end Text

end BinaryGrammar
