import BinaryGrammar.Proofs.Gaps
import BinaryGrammar.Proofs.Spelling

/-!
# What the texts of attributes mean

An attribute with a list of words means what the list says, whatever the case of its letters. A
colour is six hexadecimal digits and a delimiter is a byte in hexadecimal; the numbers that they
mean are those that their digits write in the positional system. The readers give an attribute
exactly what its text means, and nothing exactly if it means nothing.
-/

set_option autoImplicit false

namespace BinaryGrammar

/-! ## Hexadecimal texts -/

namespace Digits

/-- Digits are read up to a bound, with at most one plus sign before them. -/
theorem readBounded?_eq_some_iff {base bound n : Nat} {cs : List Char} :
    readBounded? base bound cs = some n ↔ n ≤ bound ∧
      ∃ plus ds, (plus = [] ∨ plus = ['+']) ∧ cs = plus ++ ds ∧ Writes base ds n := by
  constructor
  · intro h
    obtain ⟨hle, hds | ⟨ds, rfl, hds⟩⟩ := Attribute.readBounded?_cases h
    · exact ⟨hle, [], cs, .inl rfl, rfl, hds⟩
    · exact ⟨hle, ['+'], ds, .inr rfl, rfl, hds⟩
  · rintro ⟨hle, plus, ds, rfl | rfl, rfl, hds⟩
    · exact hds.readBounded? hle
    · unfold readBounded?
      simp [read?_eq_some_iff.mpr hds, hle]

end Digits

namespace Hex

variable {cs : List Char} {acc bytes : Bytes}

/-- Bytes are read from an even number of digits, two for each, and are the number that the digits
write. -/
theorem decodeFrom?_number (h : decodeFrom? acc cs = some bytes) :
    2 * acc.size + cs.length = 2 * bytes.size ∧
      Digits.readFrom? 16 (acc.toNat true) cs = some (bytes.toNat true) := by
  -- two digits at a time; the bytes read so far are the number read so far
  induction acc, cs using decodeFrom?.induct with
  | case1 acc => cases h; exact ⟨rfl, rfl⟩
  | case2 => cases h
  | case3 acc high low rest vh vl hh hl ih =>
      unfold decodeFrom? at h
      rw [hh, hl] at h
      obtain ⟨hsize, hnumber⟩ := ih h
      have hvh := (Digits.valueIn?_eq_some.mp hh).2
      have hvl := (Digits.valueIn?_eq_some.mp hl).2
      have hbyte : (UInt8.ofNat (vh * 16 + vl)).toNat = vh * 16 + vl :=
        UInt8.toNat_ofNat_of_lt' (show vh * 16 + vl < 256 by omega)
      have hpush : Bytes.toNat true (acc.push (UInt8.ofNat (vh * 16 + vl))) =
          (Bytes.toNat true acc * 16 + vh) * 16 + vl := by
        unfold Bytes.toNat
        rw [if_pos rfl, if_pos rfl, Array.foldl_push, hbyte]
        omega
      rw [hpush] at hnumber
      rw [Array.size_push] at hsize
      refine ⟨by rw [List.length_cons, List.length_cons]; omega, ?_⟩
      simp only [Digits.readFrom?, hh, hl]
      exact hnumber
  | case4 acc high low rest hnone =>
      unfold decodeFrom? at h
      split at h
      · rename_i vh vl hh hl
        exact (hnone vh vl hh hl).elim
      · cases h

/-- An even number of digits is read. -/
theorem decodeFrom?_isSome (heven : cs.length % 2 = 0)
    (hdigits : ∀ c ∈ cs, (Digits.valueIn? 16 c).isSome) : (decodeFrom? acc cs).isSome := by
  induction acc, cs using decodeFrom?.induct with
  | case1 acc => rfl
  | case2 => cases heven
  | case3 acc high low rest vh vl hh hl ih =>
      unfold decodeFrom?
      rw [hh, hl]
      refine ih ?_ fun c hc => hdigits c (List.mem_cons_of_mem _ (List.mem_cons_of_mem _ hc))
      rw [List.length_cons, List.length_cons] at heven
      omega
  | case4 acc high low rest hnone =>
      obtain ⟨vh, hh⟩ := Option.isSome_iff_exists.mp (hdigits high List.mem_cons_self)
      obtain ⟨vl, hl⟩ := Option.isSome_iff_exists.mp
        (hdigits low (List.mem_cons_of_mem _ List.mem_cons_self))
      exact (hnone vh vl hh hl).elim

end Hex

namespace Attribute

variable {α : Type} {table : List (String × α)} {t : String} {v : α}

/-- In a list of words that differ by more than case, each word has one meaning. -/
theorem lookUp?_eq_some_iff (hwords : (table.map fun p => p.1.toList.map Char.toLower).Nodup) :
    lookUp? table t = some v ↔ ∃ w, (w, v) ∈ table ∧ Text.sameIgnoringCase w t = true := by
  unfold lookUp?
  constructor
  · intro h
    obtain ⟨p, hp, rfl⟩ := Option.map_eq_some_iff.mp h
    exact ⟨p.1, List.mem_of_find?_eq_some hp, by simpa using List.find?_some hp⟩
  · rintro ⟨w, hw, hsame⟩
    -- what is found first need not be this word, but it is the same up to case
    have hfound : (table.find? fun p => Text.sameIgnoringCase p.1 t).isSome :=
      List.find?_isSome.mpr ⟨(w, v), hw, hsame⟩
    obtain ⟨p, hp⟩ := Option.isSome_iff_exists.mp hfound
    have hpsame : Text.sameIgnoringCase p.1 t = true := by simpa using List.find?_some hp
    rw [Expression.sameIgnoringCase_eq, beq_iff_eq] at hpsame hsame
    have heq : p = (w, v) := List.inj_on_of_nodup_map hwords (List.mem_of_find?_eq_some hp) hw
      (hpsame.trans hsame.symm)
    rw [hp, heq]
    rfl

/-- Three bytes are a colour. -/
theorem colour?_of_decode? {bytes : Bytes} (h : Hex.decode? t = some bytes) :
    colour? t = if bytes.size = 3 then some ⟨bytes.toNat true⟩ else none := by
  unfold colour?
  rw [h]
  -- the match is on an array of three, which is seen only when the bytes are taken apart
  obtain ⟨_ | ⟨r, _ | ⟨g, _ | ⟨b, _ | ⟨more, rest⟩⟩⟩⟩⟩ := bytes
  · rfl
  · rfl
  · rfl
  · have hnumber : Bytes.toNat true #[r, g, b] = (r.toNat * 256 + g.toNat) * 256 + b.toNat := by
      simp [Bytes.toNat]
    change some (Colour.mk ((r.toNat * 256 + g.toNat) * 256 + b.toNat)) =
      some (Colour.mk (Bytes.toNat true #[r, g, b]))
    rw [hnumber]
  · rw [if_neg (by simp)]
    rfl

theorem colour?_of_decode?_none (h : Hex.decode? t = none) : colour? t = none := by
  unfold colour?
  rw [h]

/-- A colour is read from six hexadecimal digits. -/
theorem colour?_eq_some_iff {c : Colour} : colour? t = some c ↔
    t.toList.length = 6 ∧ Digits.Writes 16 t.toList c.rgb := by
  have hread (hlength : t.toList.length = 6) :
      Digits.read? 16 t.toList = Digits.readFrom? 16 (Bytes.toNat true #[]) t.toList := by
    rw [Digits.read?_of_ne_nil (List.ne_nil_of_length_pos (by omega))]
    rfl
  cases hbytes : Hex.decode? t with
  | none =>
      rw [colour?_of_decode?_none hbytes]
      refine iff_of_false nofun fun ⟨hlength, hwrites⟩ => ?_
      have hdigits := Option.isSome_of_eq_some (Digits.read?_eq_some_iff.mpr hwrites)
      have hsome : (Hex.decode? t).isSome :=
        Hex.decodeFrom?_isSome (by omega) (Digits.read?_isSome.mp hdigits).2
      rw [hbytes] at hsome
      cases hsome
  | some bytes =>
      obtain ⟨hsize, hnumber⟩ := Hex.decodeFrom?_number hbytes
      have hsizes : t.toList.length = 2 * bytes.size := by simpa using hsize
      rw [colour?_of_decode? hbytes]
      split
      · rename_i hthree
        have hlength : t.toList.length = 6 := by omega
        rw [← hread hlength] at hnumber
        rw [← Digits.read?_eq_some_iff, hnumber]
        constructor
        · intro hc
          cases hc
          exact ⟨hlength, rfl⟩
        · rintro ⟨_, hrgb⟩
          rw [Option.some.inj hrgb]
      · exact iff_of_false nofun fun ⟨hlength, _⟩ => by omega

/-- A mark before hexadecimal digits, or none. -/
def IsHexMark (mark : List Char) : Prop := mark = [] ∨ Integer.Mark 16 mark

theorem afterHexMark?_getD {mark ds : List Char} (hmark : IsHexMark mark)
    (hnone : Integer.afterHexMark? ds = none) :
    (Integer.afterHexMark? (mark ++ ds)).getD (mark ++ ds) = ds := by
  rcases hmark with rfl | hmark
  · rw [List.nil_append, hnone, Option.getD_none]
  · cases hmark with
    | hexadecimal hx =>
        rcases hx with rfl | rfl
        · rfl
        · rfl

/-- A list of characters is a mark, or none, and what is after it. -/
theorem exists_hexMark (cs : List Char) :
    ∃ mark, IsHexMark mark ∧ cs = mark ++ (Integer.afterHexMark? cs).getD cs := by
  unfold Integer.afterHexMark?
  split
  · exact ⟨['0', 'x'], .inr (.hexadecimal (.inl rfl)), rfl⟩
  · exact ⟨['0', 'X'], .inr (.hexadecimal (.inr rfl)), rfl⟩
  · exact ⟨[], .inl rfl, rfl⟩

/-- Digits do not begin with a mark, nor do they after a plus sign. -/
theorem afterHexMark?_signed {plus ds : List Char} {n : Nat} (hplus : plus = [] ∨ plus = ['+'])
    (hds : Digits.Writes 16 ds n) : Integer.afterHexMark? (plus ++ ds) = none := by
  have hdigits := (Digits.read?_isSome.mp
    (Option.isSome_of_eq_some (Digits.read?_eq_some_iff.mpr hds))).2
  rcases hplus with rfl | rfl
  · unfold Integer.afterHexMark?
    split
    · exact absurd (hdigits 'x' (by simp_all)) (by decide)
    · exact absurd (hdigits 'X' (by simp_all)) (by decide)
    · rfl
  · rfl

/-- A delimiter is read from hexadecimal digits. -/
theorem delimiter?_eq_some_iff {b : UInt8} : delimiter? t = some b ↔
    ∃ mark plus ds n, IsHexMark mark ∧ (plus = [] ∨ plus = ['+']) ∧ Digits.Writes 16 ds n ∧
      t.toList = mark ++ (plus ++ ds) ∧ n ≤ 255 ∧ b = UInt8.ofNat n := by
  unfold delimiter?
  dsimp only
  rw [Option.map_eq_some_iff]
  constructor
  · rintro ⟨n, hn, rfl⟩
    obtain ⟨hle, plus, ds, hplus, hrest, hds⟩ := Digits.readBounded?_eq_some_iff.mp hn
    obtain ⟨mark, hmark, ht⟩ := exists_hexMark t.toList
    rw [hrest] at ht
    exact ⟨mark, plus, ds, n, hmark, hplus, hds, ht, hle, rfl⟩
  · rintro ⟨mark, plus, ds, n, hmark, hplus, hds, ht, hle, rfl⟩
    refine ⟨n, ?_, rfl⟩
    rw [ht, afterHexMark?_getD hmark (afterHexMark?_signed hplus hds)]
    exact Digits.readBounded?_eq_some_iff.mpr ⟨hle, plus, ds, hplus, rfl, hds⟩

end Attribute

/-! ## Forms -/

/-- How the text of an attribute is to be understood. -/
inductive Form where
  | yesNo
  | endian
  | display
  | lengthUnit
  | order
  | numberType
  | stringType
  | colour
  | byte
  deriving DecidableEq, Repr

namespace Form

/-- Words with the data that they stand for. -/
def tagged {α : Type} (f : α → Datum) (words : List (String × α)) : List (String × Datum) :=
  words.map fun p => (p.1, f p.2)

/-- The words of a form. -/
def words : Form → List (String × Datum)
  | yesNo => tagged .flag Attribute.yesNoWords
  | endian => tagged .endian Attribute.endianWords
  | display => tagged .display Attribute.displayWords
  | lengthUnit => tagged .lengthUnit Attribute.lengthUnitWords
  | order => tagged .order Attribute.orderWords
  | numberType => tagged .numberType Attribute.numberTypeWords
  | stringType => tagged .stringType Attribute.stringTypeWords
  | colour => []
  | byte => []

/-- What a text means. -/
inductive Means : Form → String → Datum → Prop
  /-- One of the words, up to case. -/
  | word {f : Form} {w t : String} {x : Datum} :
    (w, x) ∈ f.words → Text.sameIgnoringCase w t = true → Means f t x
  /-- Six hexadecimal digits. -/
  | colour {t : String} {n : Nat} :
    t.toList.length = 6 → Digits.Writes 16 t.toList n → Means .colour t (.colour ⟨n⟩)
  /-- Hexadecimal digits after a mark and a plus sign, each of which may be missing. -/
  | byte {t : String} {mark plus ds : List Char} {n : Nat} :
    Attribute.IsHexMark mark → plus = [] ∨ plus = ['+'] → Digits.Writes 16 ds n →
    t.toList = mark ++ (plus ++ ds) → n ≤ 255 → Means .byte t (.byte (UInt8.ofNat n))

/-- Read a text. -/
def read? : Form → String → Option Datum
  | colour, t => (Attribute.colour? t).map .colour
  | byte, t => (Attribute.delimiter? t).map .byte
  | f, t => Attribute.lookUp? f.words t

variable {f : Form} {t : String} {x : Datum}

/-- No two words of a form differ by case only. -/
theorem words_nodup (f : Form) : (f.words.map fun p => p.1.toList.map Char.toLower).Nodup := by
  cases f <;> decide

theorem word_iff (hwords : f ≠ .colour ∧ f ≠ .byte) :
    Attribute.lookUp? f.words t = some x ↔ f.Means t x := by
  rw [Attribute.lookUp?_eq_some_iff f.words_nodup]
  constructor
  · rintro ⟨w, hw, hsame⟩
    exact .word hw hsame
  · rintro (⟨hw, hsame⟩ | _ | _)
    · exact ⟨_, hw, hsame⟩
    · exact absurd rfl hwords.1
    · exact absurd rfl hwords.2

/-- **A text is read as what it means.** -/
theorem read?_eq_some_iff : f.read? t = some x ↔ f.Means t x := by
  cases f with
  | colour =>
      refine Option.map_eq_some_iff.trans ⟨?_, ?_⟩
      · rintro ⟨c, hc, rfl⟩
        obtain ⟨hlength, hwrites⟩ := Attribute.colour?_eq_some_iff.mp hc
        exact .colour hlength hwrites
      · rintro (⟨hw, _⟩ | ⟨hlength, hwrites⟩ | _)
        · cases hw
        · exact ⟨_, Attribute.colour?_eq_some_iff.mpr ⟨hlength, hwrites⟩, rfl⟩
  | byte =>
      refine Option.map_eq_some_iff.trans ⟨?_, ?_⟩
      · rintro ⟨b, hb, rfl⟩
        obtain ⟨mark, plus, ds, n, hmark, hplus, hds, ht, hle, rfl⟩ :=
          Attribute.delimiter?_eq_some_iff.mp hb
        exact .byte hmark hplus hds ht hle
      · rintro (⟨hw, _⟩ | _ | ⟨hmark, hplus, hds, ht, hle⟩)
        · cases hw
        · exact ⟨_, Attribute.delimiter?_eq_some_iff.mpr
            ⟨_, _, _, _, hmark, hplus, hds, ht, hle, rfl⟩, rfl⟩
  | _ => exact word_iff (by decide)

/-- Whether a text means something is decided by reading it. -/
instance (f : Form) (t : String) : Decidable (∃ x, f.Means t x) :=
  decidable_of_iff ((f.read? t).isSome = true) (by
    rw [Option.isSome_iff_exists]
    exact exists_congr fun x => read?_eq_some_iff)

end Form

end BinaryGrammar
