import BinaryGrammar.Proofs.Independence

/-!
# Taking what is there

Over a source that serves some data, whatever stands at the cursor can be taken. So many bytes are
the part of the data at the cursor, however many chunks they are fetched in, and so many bits write
the integer that stands there.

A run that succeeds is said to deliver a result. It leaves the cursor at a known position, and the
source in a state in which it goes on serving.
-/

set_option autoImplicit false

namespace BinaryGrammar

/-! ## Runs that succeed -/

namespace Reader

variable {σ α β : Type}

/-- A run succeeds with a result and leaves the cursor at a position, with the source in one of the
states `I`. -/
def Delivers (I : σ → Prop) (x : Reader σ α) (c : Cursor σ) (a : α) (pos : Nat) : Prop :=
  ∃ c', x c = .ok a c' ∧ c'.pos = pos ∧ I c'.source

namespace Delivers

variable {I : σ → Prop} {x : Reader σ α} {f : α → Reader σ β} {c : Cursor σ} {a : α} {b : β}
  {p q : Nat}

theorem pure (hc : I c.source) : Delivers I (Pure.pure a : Reader σ α) c a c.pos :=
  ⟨c, rfl, rfl, hc⟩

/-- The steps of a sequence deliver one after the other. -/
theorem bind (hx : Delivers I x c a p)
    (hf : ∀ c', c'.pos = p → I c'.source → Delivers I (f a) c' b q) :
    Delivers I (x >>= f) c b q := by
  obtain ⟨c₁, hrun, hpos, hsource⟩ := hx
  obtain ⟨c₂, hrun', hpos', hsource'⟩ := hf c₁ hpos hsource
  exact ⟨c₂, (bind_of_ok hrun).trans hrun', hpos', hsource'⟩

theorem check_bind {y : Reader σ Unit} {g : Unit → Reader σ β} {P : Prop} (hy : Checks y P)
    (hP : P) (hg : Delivers I (g ()) c b q) : Delivers I (y >>= g) c b q := by
  obtain ⟨c', hrun, hrest⟩ := hg
  exact ⟨c', (bind_of_ok (hy.of hP c)).trans hrun, hrest⟩

theorem aligned_bind {g : Unit → Reader σ β} (hal : c.pos % 8 = 0)
    (hg : Delivers I (g ()) c b q) : Delivers I (ensureAligned >>= g) c b q := by
  obtain ⟨c', hrun, hrest⟩ := hg
  have haligned : ensureAligned c = .ok () c := (Checks.require _ _).of hal c
  exact ⟨c', (bind_of_ok haligned).trans hrun, hrest⟩

theorem ofExcept_bind {y : Except Cause α} (hy : y = .ok a) (hf : Delivers I (f a) c b q) :
    Delivers I (ofExcept y >>= f) c b q := by
  rw [hy]
  exact hf

/-- Move the cursor, and then return. -/
theorem moveTo_pure {n : Nat} (hc : I c.source) :
    Delivers I (moveTo n >>= fun _ => Pure.pure a : Reader σ α) c a n :=
  ⟨{ c with pos := n }, rfl, rfl, hc⟩

end Delivers

end Reader

namespace Bytes

variable {data : Bytes}

/-- Parts of the data that follow each other make up one part. -/
theorem slice_append_slice (data : Bytes) (offset a b : Nat) :
    slice data offset a ++ slice data (offset + a) b = slice data offset (a + b) := by
  unfold slice
  rw [Array.extract_append_extract]
  congr 1 <;> omega

theorem size_slice {offset count : Nat} (h : offset + count ≤ data.size) :
    (slice data offset count).size = count := by
  unfold slice
  rw [Array.size_extract]
  omega

theorem slice_zero (data : Bytes) (offset : Nat) : slice data offset 0 = #[] :=
  Array.extract_empty_of_stop_le_start (by omega)

end Bytes

/-! ## Units -/

namespace Bytes

variable {a b : Bytes} {width : Nat}

/-- A part of the first bytes does not depend on what follows them. -/
theorem extract_append_of_le {i j : Nat} (h : j ≤ a.size) :
    (a ++ b).extract i j = a.extract i j := by
  rw [Array.extract_append]
  have hnone : b.extract (i - a.size) (j - a.size) = #[] :=
    Array.extract_empty_of_stop_le_start (by omega)
  rw [hnone, Array.append_empty]

theorem unitAt_append_left {k : Nat} (h : k * width + width ≤ a.size) :
    unitAt (a ++ b) width k = unitAt a width k := extract_append_of_le h

theorem unitAt_append_right {m k : Nat} (h : a.size = m * width) :
    unitAt (a ++ b) width (m + k) = unitAt b width k := by
  have hstart : (m + k) * width = a.size + k * width := by rw [Nat.add_mul, h]
  unfold unitAt
  rw [Array.extract_append, Array.extract_eq_empty_of_le (by omega), Array.empty_append]
  congr 1 <;> omega

/-- The first unit in some bytes and some more is the first in the former, or else in the latter. -/
theorem findUnit?_append (ha : a.size % width = 0) (count : Nat) (p : Bytes → Bool) :
    findUnit? (a ++ b) width (a.size / width + count) p =
      (a.findUnit? width (a.size / width) p).or
        ((b.findUnit? width count p).map (a.size / width + ·)) := by
  have hsize : a.size = a.size / width * width := by
    have hmod := Nat.div_add_mod a.size width
    rw [Nat.mul_comm] at hmod
    omega
  unfold findUnit?
  rw [List.range_add, List.find?_append, List.find?_map]
  congr 1
  · refine List.find?_congr fun k hk => ?_
    have hk' : (k + 1) * width ≤ a.size / width * width :=
      Nat.mul_le_mul_right _ (List.mem_range.mp hk)
    rw [unitAt_append_left (by rw [Nat.add_mul] at hk'; omega)]
  · congr 1
    refine List.find?_congr fun k _ => ?_
    exact congrArg p (unitAt_append_right hsize)

/-- Whole units and some more bytes have as many whole units together as apart. -/
theorem unitCount_append (hwidth : 0 < width) (ha : a.size % width = 0) :
    (a ++ b).size / width = a.size / width + b.size / width := by
  rw [Array.size_append, Nat.add_div hwidth, ha, Nat.zero_add,
    if_neg (Nat.not_le.mpr (Nat.mod_lt _ hwidth))]
  omega

/-- There is no unit in bytes that are too few for one. -/
theorem findUnit?_of_lt (h : b.size < width) (p : Bytes → Bool) :
    b.findUnit? width (b.size / width) p = none := by
  rw [Nat.div_eq_of_lt h]
  rfl

/-- The bytes of the whole units in some bytes. -/
def wholeUnits (bytes : Bytes) (width : Nat) : Bytes :=
  bytes.extract 0 (bytes.size / width * width)

theorem size_wholeUnits (bytes : Bytes) (width : Nat) :
    (bytes.wholeUnits width).size = bytes.size / width * width := by
  have hle := Nat.div_mul_le_self bytes.size width
  unfold wholeUnits
  rw [Array.size_extract]
  omega

/-- Less than a unit is left after the whole units. -/
theorem size_lt_wholeUnits (bytes : Bytes) (hwidth : 0 < width) :
    bytes.size < (bytes.wholeUnits width).size + width := by
  have hmod := Nat.mod_lt bytes.size hwidth
  have hdiv := Nat.div_add_mod bytes.size width
  rw [size_wholeUnits, Nat.mul_comm]
  omega

/-- Units are looked for in whole units only. -/
theorem findUnit?_wholeUnits (bytes : Bytes) (hwidth : 0 < width) (p : Bytes → Bool) :
    (bytes.wholeUnits width).findUnit? width ((bytes.wholeUnits width).size / width) p =
      bytes.findUnit? width (bytes.size / width) p := by
  have hsize := size_wholeUnits bytes width
  have hlt := size_lt_wholeUnits bytes hwidth
  have hsplit : bytes.wholeUnits width ++
      bytes.extract (bytes.wholeUnits width).size bytes.size = bytes := by
    rw [hsize]
    unfold wholeUnits
    rw [Array.extract_append_extract]
    exact Array.extract_eq_self_of_le (by omega)
  have hfew : (bytes.extract (bytes.wholeUnits width).size bytes.size).size < width := by
    rw [Array.size_extract]
    omega
  have hmod : (bytes.wholeUnits width).size % width = 0 := by rw [hsize, Nat.mul_mod_left]
  generalize bytes.extract (bytes.wholeUnits width).size bytes.size = rest at *
  have hcount := unitCount_append (b := rest) hwidth hmod
  have happend := findUnit?_append (b := rest) hmod (rest.size / width) p
  rw [← hcount, hsplit, findUnit?_of_lt hfew, Option.map_none, Option.or_none] at happend
  exact happend.symm

/-- A part of the data is the whole units of its first bytes and what follows these. -/
theorem slice_eq_wholeUnits (data : Bytes) (offset width : Nat) {want total : Nat}
    (h : want ≤ total) : slice data offset total = (slice data offset want).wholeUnits width ++
      slice data (offset + ((slice data offset want).wholeUnits width).size)
        (total - ((slice data offset want).wholeUnits width).size) := by
  have hle := Nat.div_mul_le_self (slice data offset want).size width
  have hsize := size_slice_le data offset want
  rw [size_wholeUnits]
  unfold wholeUnits
  generalize (slice data offset want).size / width * width = m at *
  have hhead : (slice data offset want).extract 0 m = slice data offset m := by
    unfold slice
    rw [Array.extract_extract]
    congr 1
    omega
  rw [hhead, slice_append_slice]
  congr 1
  omega

end Bytes

namespace Decoder

open Reader (Delivers)

variable {σ : Type} {d : Decoder σ} {data : Bytes} {I : σ → Prop} {ctx : Context} {i : Nat}
  {c : Cursor σ}

section

variable (hserves : d.source.Serves data I)
include hserves

/-! ## Bytes and bits -/

theorem fetch_delivers (hc : I c.source) {offset count : Nat} (hoffset : offset < Word.modulus)
    (hword : data.size < Word.modulus ∨ offset + count < Word.modulus) :
    Delivers I (d.fetch offset count) c (Bytes.slice data offset count) c.pos := by
  obtain ⟨s, hread, hs⟩ := hserves.readFull count hoffset hword hc
  refine ⟨{ c with source := s }, ?_, rfl, hs⟩
  unfold fetch
  rw [hread]

/-- Chunk by chunk, all bytes that are asked for are fetched. -/
theorem fetchChunks_delivers {offset count : Nat} (hin : offset + count ≤ data.size)
    (hword : offset + count < Word.modulus) : ∀ (chunks n : Nat) (c : Cursor σ),
    I c.source → n ≤ count → count ≤ n + chunks * chunk →
    Delivers I (d.fetchChunks offset count chunks (Bytes.slice data offset n)) c
      (Bytes.slice data offset count) c.pos := by
  intro chunks
  induction chunks with
  | zero =>
      intro n c hc hn hall
      have heq : n = count := by omega
      rw [heq]
      exact .pure hc
  | succ chunks ih =>
      intro n c hc hn hall
      have hsize : (Bytes.slice data offset n).size = n := Bytes.size_slice (by omega)
      unfold fetchChunks
      rw [hsize]
      split
      · -- the next chunk is there in full, so the loop goes on after it
        have hwant : min (count - n) chunk ≤ count - n := Nat.min_le_left _ _
        have hmore : (Bytes.slice data (offset + n) (min (count - n) chunk)).size =
            min (count - n) chunk := Bytes.size_slice (by omega)
        refine .bind (fetch_delivers hserves hc (by omega) (Or.inr (by omega))) ?_
        intro c' hpos hc'
        rw [hmore, if_neg (Nat.lt_irrefl _), Bytes.slice_append_slice, ← hpos]
        refine ih _ c' hc' (by omega) ?_
        rw [Nat.add_mul, Nat.one_mul] at hall
        omega
      · have heq : n = count := by omega
        rw [heq]
        exact .pure hc

/-- **Bytes that are there can be taken.** -/
theorem take_delivers (hc : I c.source) (hlimit : ctx.limit = none) (hal : c.pos % 8 = 0)
    {count : Nat} (hin : c.pos / 8 + count ≤ data.size)
    (hword : c.pos + 8 * count < Word.modulus) :
    Delivers I (d.take ctx i count) c (Bytes.slice data (c.pos / 8) count)
      (c.pos + 8 * count) := by
  have hroom : ∀ room, ctx.room c.pos = some room → count ≤ room := by
    intro room hroom
    unfold Context.room at hroom
    rw [hlimit] at hroom
    cases hroom
  unfold take
  refine .aligned_bind hal ?_
  change Delivers I (requireRoom ctx c.pos count >>= _) c _ _
  refine .check_bind (requireRoom_checks ..) hroom ?_
  have hchunks := fetchChunks_delivers hserves hin (by omega) (count / chunk + 1) 0 c hc
    (Nat.zero_le _) (by unfold chunk; omega)
  rw [Bytes.slice_zero] at hchunks
  refine .bind hchunks ?_
  intro c' hpos hc'
  rw [Bytes.size_slice hin, if_neg (Nat.lt_irrefl _), Nat.mul_comm count 8]
  exact .check_bind (.require _ _) hword (.moveTo_pure hc')

/-- **Bits that are there can be taken**, and write the integer that stands there. -/
theorem takeBits_delivers (hc : I c.source) (hlimit : ctx.limit = none) {bits : Nat} {big : Bool}
    (horder : big = true ∨ c.pos % 8 ≠ 0 ∨ bits % 8 ≠ 0) (hin : c.pos + bits ≤ 8 * data.size)
    (hword : c.pos + bits + 7 < Word.modulus) :
    Delivers I (d.takeBits ctx bits) c (data.integerAt big c.pos (c.pos + bits))
      (c.pos + bits) := by
  unfold takeBits
  change Delivers I (Reader.requireWord (c.pos + bits + 7) >>= _) c _ _
  refine .check_bind (.require _ _) hword ?_
  unfold Word.bytesOfBits
  refine .check_bind (requireBits_checks ..) (fun l hl => by rw [hlimit] at hl; cases hl) ?_
  refine .bind (fetch_delivers hserves hc (by omega) (Or.inr (by omega))) ?_
  intro c' _ hc'
  rw [Bytes.size_slice (by omega)]
  refine .check_bind (.require _ _) (Nat.le_refl _) ?_
  have hvalue := Bytes.bitsToNat_slice rfl (Nat.le_add_right c.pos bits)
    (show c.pos + bits ≤ 8 * (c.pos / 8 + ((c.pos + bits + 7) / 8 - c.pos / 8)) by omega)
    (show c.pos / 8 + ((c.pos + bits + 7) / 8 - c.pos / 8) ≤ data.size by omega)
    (horder.imp id fun h => by omega)
  rw [hvalue]
  exact .moveTo_pure hc'

/-- **An integer that is there can be taken**, whichever way. -/
theorem takeInteger_delivers (hc : I c.source) (hlimit : ctx.limit = none) {bits : Nat}
    (big : Bool) (hbits : 1 ≤ bits ∧ bits ≤ 64) (hin : c.pos + bits ≤ 8 * data.size)
    (hword : c.pos + bits + 7 < Word.modulus) :
    Delivers I (d.takeInteger ctx i bits big) c (data.integerAt big c.pos (c.pos + bits))
      (c.pos + bits) := by
  unfold takeInteger
  refine .check_bind (.require _ _) hbits ?_
  change Delivers I (if c.pos % 8 = 0 ∧ bits % 8 = 0 then _ else _) c _ _
  by_cases hal : c.pos % 8 = 0 ∧ bits % 8 = 0
  · -- whole bytes
    rw [if_pos hal]
    have hbytes : 8 * (bits / 8) = bits := by omega
    have htake := take_delivers (i := i) hserves hc hlimit hal.1
      (show c.pos / 8 + bits / 8 ≤ data.size by omega) (by omega)
    rw [hbytes] at htake
    refine .bind htake ?_
    intro c' hpos hc'
    have hvalue : Bytes.toNat big (Bytes.slice data (c.pos / 8) (bits / 8)) =
        data.integerAt big c.pos (c.pos + bits) := by
      unfold Bytes.slice
      rw [show c.pos / 8 + bits / 8 = (c.pos + bits) / 8 by omega]
      exact Bytes.toNat_extract hal.1 (by omega) hin
    rw [hvalue, ← hpos]
    exact .pure hc'
  · -- bits that do not begin or do not end with a byte, where the order of bytes does not matter
    rw [if_neg hal]
    exact takeBits_delivers hserves hc hlimit (by omega) hin hword

/-- **An integer that is there can be read.** -/
theorem readInteger_delivers (hc : I c.source) (hlimit : ctx.limit = none) {bits : Nat} (big : Bool)
    (hbits : 1 ≤ bits ∧ bits ≤ 64) (hin : c.pos + bits ≤ 8 * data.size)
    (hword : c.pos + bits + 7 < Word.modulus) :
    Delivers I (d.readInteger ctx i bits big) c
      (if d.document.signed i then
        .int (Word.signedOf bits (data.integerAt big c.pos (c.pos + bits)))
      else .uint (data.integerAt big c.pos (c.pos + bits))) (c.pos + bits) := by
  unfold readInteger
  refine .bind (takeInteger_delivers hserves hc hlimit big hbits hin hword) ?_
  intro c' hpos hc'
  rw [← hpos]
  exact .pure hc'

end

/-! ## Fields -/

theorem readElement_delivers {levels p : Nat} {v : Value}
    (h : Delivers I (d.readBody (d.readElement levels) ctx i) c v p) :
    Delivers I (d.readElement (levels + 1) ctx i) c v p := by
  obtain ⟨c', hrun, hrest⟩ := h
  exact ⟨c', readElement_of_ok hrun, hrest⟩

/-- The last steps of a field that is accepted or need not be. -/
theorem finish_match_delivers {start : Nat} {payload : Payload} {accepts : Value → Bool}
    (hc : I c.source) (hstart : start ≤ c.pos) (hword : c.pos + 7 < Word.modulus)
    (haccepts : d.document.mustMatch i = false ∨ ∀ v, accepts v = true) :
    Delivers I (finishLeaf i start payload >>= fun v => d.requireMatch i (accepts v) v) c
      (.leaf i start c.pos payload) c.pos := by
  have hmatch (v : Value) : d.requireMatch i (accepts v) v = pure v := by
    unfold requireMatch
    rcases haccepts with hneed | hall
    · rw [hneed, Bool.false_and]
      rfl
    · rw [hall v, Bool.not_true, Bool.and_false]
      rfl
  have hleaf : Delivers I (finishLeaf i start payload) c (.leaf i start c.pos payload) c.pos := by
    unfold finishLeaf
    change Delivers I (Reader.requireWord (c.pos + 7) >>= fun _ =>
      Reader.require (start ≤ c.pos) .overflow >>= fun _ => pure _) c _ _
    exact .check_bind (.require _ _) hword (.check_bind (.require _ _) hstart (.pure hc))
  refine .bind hleaf ?_
  intro c' hpos hc'
  rw [hmatch, ← hpos]
  exact .pure hc'

end Decoder

end BinaryGrammar
