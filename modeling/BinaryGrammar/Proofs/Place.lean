import BinaryGrammar.Proofs.Tree

/-!
# The place of a value

A value says which bytes it covers and, if it does not begin and end with a byte, which bits of
them. The statement here is that it says the truth: the value lies exactly between the cursor before
the read and the cursor after it. There is nothing else to say of places: where a position would be
no word the read overflows and gives no value.
-/

set_option autoImplicit false

namespace BinaryGrammar

namespace Value

/-- The bit position where a value begins. -/
def bitStart (v : Value) : Nat :=
  8 * v.offset + match v.bits with
    | some span => span.first
    | none => 0

/-- The bit position after the last bit of a value. -/
def bitStop (v : Value) : Nat :=
  match v.bits with
  | some span => v.bitStart + span.count
  | none => 8 * (v.offset + v.length)

/-- A value lies between two bit positions, and says so. -/
structure Spans (v : Value) (start stop : Nat) : Prop where
  offset : v.offset = start / 8
  bytes : v.offset + v.length = (stop + 7) / 8
  le : start ≤ stop
  bitStart : v.bitStart = start
  bitStop : v.bitStop = stop

/-- The bytes of a value are those in which its bits lie. -/
def BytesTold (v : Value) : Prop :=
  v.offset = v.bitStart / 8 ∧ v.offset + v.length = (v.bitStop + 7) / 8

theorem Spans.bytesTold {v : Value} {start stop : Nat} (h : v.Spans start stop) : v.BytesTold := by
  unfold BytesTold
  rw [h.bitStart, h.bitStop]
  exact ⟨h.offset, h.bytes⟩

theorem BytesTold.of_whole {v : Value} (h : v.bits = none) : v.BytesTold := by
  unfold BytesTold bitStart bitStop
  rw [h]
  dsimp only
  omega

end Value

/-! ## Fields -/

/-- A field that begins and ends with a byte, or has at most sixty-four bits. -/
theorem Value.leaf_spans {i start stop : Nat} {payload : Payload} (hle : start ≤ stop)
    (hsmall : start % 8 = 0 ∧ stop % 8 = 0 ∨ stop ≤ start + 64) :
    (leaf i start stop payload).Spans start stop := by
  have hoffset : (leaf i start stop payload).offset = start / 8 := rfl
  have hlength : (leaf i start stop payload).length = (stop + 7) / 8 - start / 8 := rfl
  by_cases hal : start % 8 = 0 ∧ stop % 8 = 0
  · have hbits : (leaf i start stop payload).bits = none := if_pos hal
    refine ⟨rfl, by rw [hoffset, hlength]; omega, hle, ?_, ?_⟩
    · unfold bitStart
      rw [hbits, hoffset]
      dsimp only
      omega
    · unfold bitStop
      rw [hbits, hoffset, hlength]
      dsimp only
      omega
  · -- the number of bits is not cut off
    have hcount : (stop - start) % 0x100000000 = stop - start := Nat.mod_eq_of_lt (by omega)
    have hbits : (leaf i start stop payload).bits = some ⟨start % 8, stop - start⟩ := by
      rw [← hcount]
      exact if_neg hal
    have hfirst : (leaf i start stop payload).bitStart = start := by
      unfold bitStart
      rw [hbits, hoffset]
      dsimp only
      omega
    refine ⟨rfl, by rw [hoffset, hlength]; omega, hle, hfirst, ?_⟩
    unfold bitStop
    rw [hbits, hfirst]
    dsimp only
    omega

namespace Decoder

variable {σ : Type} {d : Decoder σ} {ctx : Context} {c c' : Cursor σ} {v : Value}

/-- **A field lies between the cursor before and the cursor after.** -/
theorem FieldRead.spans {i : Nat} (h : FieldRead d ctx i c v c') : v.Spans c.pos c'.pos := by
  obtain ⟨payload, rfl⟩ := h.value
  refine Value.leaf_spans h.le ?_
  rcases h.intake.width with hsame | hal | ⟨k, hk, hadd⟩
  · exact Or.inr (by rw [hsame]; exact Nat.le_add_right ..)
  · exact Or.inl hal
  · exact Or.inr (by rw [hadd]; exact Nat.add_le_add_left hk _)

/-! ## The cursor stays a word -/

theorem readElement_word : ∀ (levels : Nat) {ctx : Context} {i : Nat} {c c' : Cursor σ} {v : Value},
    d.readElement levels ctx i c = .ok v c' → c.pos < Word.modulus → c'.pos < Word.modulus
  | 0, ctx, i, c, c', v, h, _ => by cases h
  | levels + 1, ctx, i, c, c', v, h, hc => by
      rcases readElement_cases h with
        ⟨n, s, body, p₀, p₁, p₂, ts, padding, hn, _, hread⟩ | ⟨_, hfield⟩
      · injection hn with hn
        subst hn
        rcases hread.ending with ⟨stop, c₁, u, hext, _, _, _, hc'⟩ | ⟨_, _, _, hc'⟩
        · -- the settled end is a word wherever the fields have left the cursor
          obtain ⟨_, hword, _⟩ := hread.proper stop hext
          rw [hc']
          exact hword
        · have hinit : p₀.cursor.pos < Word.modulus := by rw [hread.opened.cursor]; exact hc
          have hlast : p₁.cursor.pos < Word.modulus := by
            refine hread.turns.invariant (P := fun p => p.cursor.pos < Word.modulus) ?_ ?_ hinit
            · intro p p' child w c₁ hp _ hok hsettle
              rw [hsettle.cursor]
              exact readElement_word levels hok hp
            · intro p child failure c₁ hp _
              exact hp
          rw [hc', hread.closed.cursor]
          exact hlast
      · exact Nat.lt_of_le_of_lt (Nat.le_add_right ..) hfield.word

/-- Being a word is a property of the cursor that every read keeps. -/
theorem maintains_word (d : Decoder σ) : d.Maintains fun c => c.pos < Word.modulus :=
  fun _ _ _ =>
    ⟨fun hc h => readElement_word _ h hc, fun hc h => by rw [readElement_error_pos h]; exact hc⟩

end Decoder

/-! ## Fields next to each other -/

/-- Values lie next to each other, from one bit position to another, without gaps. -/
def Tiles : Nat → List Value → Nat → Prop
  | start, [], stop => start = stop
  | start, v :: vs, stop => v.bitStart = start ∧ start ≤ v.bitStop ∧ Tiles v.bitStop vs stop

namespace Tiles

theorem le : ∀ {vs : List Value} {start stop : Nat}, Tiles start vs stop → start ≤ stop
  | [], _, _, h => Nat.le_of_eq h
  | _ :: _, _, _, ⟨_, hle, hrest⟩ => Nat.le_trans hle hrest.le

theorem concat {v : Value} : ∀ {vs : List Value} {start stop : Nat}, Tiles start vs stop →
    v.bitStart = stop → stop ≤ v.bitStop → Tiles start (vs ++ [v]) v.bitStop
  | [], _, _, h, hv, hle => ⟨by rw [hv]; exact h.symm, by rw [show _ = _ from h]; exact hle, rfl⟩
  | _ :: _, _, _, ⟨hu, hle', hrest⟩, hv, hle => ⟨hu, hle', hrest.concat hv hle⟩

end Tiles

namespace Decoder

variable {σ : Type} {d : Decoder σ} {ctx : Context} {c c' : Cursor σ} {v : Value}
variable {read : ElementReader σ} {label i : Nat} {children : List Nat} {p₀ p₁ p₂ : Progress σ}
  {ts : List (Turn σ)} {padding : List Value}

/-- The fields of a structure lie next to each other, from its start to the cursor. -/
theorem StructureRead.tiles {levels : Nat}
    (hspans : ∀ {ctx : Context} {i : Nat} {c c' : Cursor σ} {v : Value},
      d.readElement levels ctx i c = .ok v c' → v.Spans c.pos c'.pos)
    (h : StructureRead d (d.readElement levels) ctx label i children c v c' p₀ p₁ p₂ ts padding) :
    Tiles c.pos p₂.frame.values.toList p₂.cursor.pos := by
  let Inv := fun p : Progress σ => Tiles c.pos p.frame.values.toList p.cursor.pos
  have hinit : Inv p₀ := by
    unfold Inv
    rw [h.opened.frame, h.opened.cursor]
    rfl
  have hlast : Inv p₁ := by
    refine h.turns.invariant ?_ ?_ hinit
    · intro p p' child w c₁ hp _ hread hsettle
      unfold Inv
      rw [hsettle.frame, hsettle.cursor, Progress.values_push]
      have hw := hspans hread
      have hnext := Tiles.concat hp hw.bitStart (by rw [hw.bitStop]; exact hw.le)
      rwa [hw.bitStop] at hnext
    · intro p child failure c₁ hp _
      exact hp
  rw [h.closed.frame, h.closed.cursor]
  exact hlast

/-- A structure lies between two bytes. -/
theorem structureValue_spans {label start stop : Nat} {children : List Value}
    (hal : start % 8 = 0) (hal' : stop % 8 = 0) (hle : start ≤ stop) :
    (structureValue label start stop children).Spans start stop := by
  have hlength : (structureValue label start stop children).length = (stop - start + 7) / 8 := rfl
  refine ⟨rfl, ?_, hle, ?_, ?_⟩
  · rw [hlength]
    change start / 8 + _ = _
    omega
  · change 8 * (start / 8) + 0 = start
    omega
  · change 8 * (start / 8 + _) = stop
    rw [hlength]
    omega

/-- A structure does not end before it starts, unless its fields do. -/
theorem StructureRead.le_end
    (h : StructureRead d read ctx label i children c v c' p₀ p₁ p₂ ts padding)
    (hfields : c.pos ≤ p₂.cursor.pos) : c.pos ≤ c'.pos := by
  rcases h.ending with ⟨stop, c₁, u, hext, _, _, _, hc'⟩ | ⟨_, _, _, hc'⟩
  · rw [hc']
    exact (h.proper stop hext).1
  · rw [hc']
    exact hfields

/-- **A value lies between the cursor before the read and the cursor after it.** -/
theorem readElement_spans : ∀ (levels : Nat) {ctx : Context} {i : Nat} {c c' : Cursor σ}
    {v : Value}, d.readElement levels ctx i c = .ok v c' → v.Spans c.pos c'.pos
  | 0, ctx, i, c, c', v, h => by cases h
  | levels + 1, ctx, i, c, c', v, h => by
      rcases readElement_cases h with
        ⟨n, s, body, p₀, p₁, p₂, ts, padding, hn, _, hread⟩ | ⟨_, hfield⟩
      · injection hn with hn
        subst hn
        have htiles := hread.tiles (readElement_spans levels)
        rw [hread.value]
        exact structureValue_spans hread.aligned hread.end_aligned (hread.le_end htiles.le)
      · exact hfield.spans

/-- An element that opens a structure begins and ends with a byte. -/
theorem readElement_aligned {levels i s : Nat} {body : StructBody}
    (h : d.readElement levels ctx i c = .ok v c')
    (hs : d.document.structureOf? i = some (s, body)) :
    c.pos % 8 = 0 ∧ c'.pos % 8 = 0 := by
  rcases readElement_cases h with
    ⟨n, s', body', p₀, p₁, p₂, ts, padding, _, _, hread⟩ | ⟨hnone, _⟩
  · exact ⟨hread.aligned, hread.end_aligned⟩
  · rw [hnone] at hs
    cases hs

end Decoder

end BinaryGrammar
