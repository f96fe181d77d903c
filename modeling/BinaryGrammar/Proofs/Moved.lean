import BinaryGrammar.Proofs.Extent
import BinaryGrammar.Proofs.Failing

/-!
# Values further on

The same data may stand elsewhere, so many bytes further on. What is decoded of them then tells of
places that are so much further on, and is the same otherwise: payloads, lengths and spans of bits
are not moved. Formulas see payloads only, and a limit that is moved with the cursor leaves as much
room as before. Where nothing overflows, all calculations of the decoder move with the data.
-/

set_option autoImplicit false

namespace BinaryGrammar

/-! ## Values -/

namespace Value

mutual

/-- A value so many bytes further on. -/
def moved (k : Nat) : Value → Value
  | ⟨element, offset, length, bits, payload, children⟩ =>
    ⟨element, offset + k, length, bits, payload, movedAll k children⟩

/-- Values so many bytes further on. -/
def movedAll (k : Nat) : List Value → List Value
  | [] => []
  | v :: vs => v.moved k :: movedAll k vs

end

theorem movedAll_eq (k : Nat) (vs : List Value) : movedAll k vs = vs.map (moved k) := by
  induction vs with
  | nil => rfl
  | cons v vs ih => rw [movedAll, ih, List.map_cons]

section

variable (k : Nat) (v : Value)

@[simp] theorem element_moved : (v.moved k).element = v.element := by
  cases v; rw [moved]

@[simp] theorem offset_moved : (v.moved k).offset = v.offset + k := by
  cases v; rw [moved]

@[simp] theorem length_moved : (v.moved k).length = v.length := by
  cases v; rw [moved]

@[simp] theorem bits_moved : (v.moved k).bits = v.bits := by
  cases v; rw [moved]

@[simp] theorem payload_moved : (v.moved k).payload = v.payload := by
  cases v; rw [moved]

@[simp] theorem children_moved : (v.moved k).children = v.children.map (moved k) := by
  cases v; rw [moved, movedAll_eq]

end

mutual

@[simp] theorem moved_zero : ∀ v : Value, v.moved 0 = v
  | ⟨element, offset, length, bits, payload, children⟩ => by
      rw [moved, movedAll_zero children]
      rfl

theorem movedAll_zero : ∀ vs : List Value, movedAll 0 vs = vs
  | [] => rfl
  | v :: vs => by rw [movedAll, moved_zero v, movedAll_zero vs]

end

@[simp] theorem int?_moved (k : Nat) (v : Value) : (v.moved k).int? = v.int? := by
  unfold int?
  rw [payload_moved]

theorem child?_moved (doc : Document) (k : Nat) (v : Value) (name : String) :
    (v.moved k).child? doc name = (v.child? doc name).map (moved k) := by
  unfold child?
  rw [children_moved, ← List.map_reverse, List.find?_map]
  congr 2
  funext w
  simp [isNamed]

theorem float?_moved (k : Nat) (v : Value) : (v.moved k).float? = v.float? := by
  unfold float?
  rw [payload_moved]

theorem text?_moved (k : Nat) (v : Value) : (v.moved k).text? = v.text? := by
  unfold text?
  rw [payload_moved]

theorem bytes?_moved (k : Nat) (v : Value) : (v.moved k).bytes? = v.bytes? := by
  unfold bytes?
  rw [payload_moved]

theorem readings?_moved (k : Nat) (v : Value) : (v.moved k).readings? = v.readings? := by
  unfold readings? width
  rw [payload_moved, bits_moved, length_moved]

end Value

/-! ## Whether a value is accepted does not depend on its place -/

theorem NumberBody.accepts_moved (body : NumberBody) (k : Nat) (v : Value) :
    body.accepts (v.moved k) = body.accepts v := by
  unfold accepts
  rw [Value.float?_moved, Value.readings?_moved]

theorem StringBody.accepts_moved (body : StringBody) (k : Nat) (v : Value) :
    body.accepts (v.moved k) = body.accepts v := by
  unfold accepts
  rw [Value.text?_moved]

theorem BinaryBody.accepts_moved (body : BinaryBody) (k : Nat) (v : Value) :
    body.accepts (v.moved k) = body.accepts v := by
  unfold accepts
  rw [Value.bytes?_moved]

/-! ## Surroundings -/

/-- A frame with its fields so many bytes further on. -/
def Frame.moved (k : Nat) (frame : Frame) : Frame :=
  { frame with values := frame.values.map (Value.moved k) }

namespace Frame

theorem get?_moved (k : Nat) (frame : Frame) (name : String) :
    (frame.moved k).get? name = (frame.get? name).map (Value.moved k) := by
  unfold get? moved
  cases frame.latest[name]? with
  | none => rfl
  | some i => simp

theorem push_moved (k : Nat) (frame : Frame) (name : String) (v : Value) :
    (frame.push name v).moved k = (frame.moved k).push name (v.moved k) := by
  unfold push moved
  split
  · simp
  · simp

theorem moved_empty (k : Nat) : ({} : Frame).moved k = {} := by
  unfold moved
  rw [Array.map_empty]

theorem moved_zero (frame : Frame) : frame.moved 0 = frame := by
  have hid : Value.moved 0 = id := funext Value.moved_zero
  unfold moved
  rw [hid, Array.map_id]

end Frame

/-- Surroundings with the fields and the limit so many bytes further on. -/
def Context.moved (k : Nat) (ctx : Context) : Context where
  frames := ctx.frames.map (Frame.moved k)
  limit := ctx.limit.map (· + 8 * k)

/-- The end of a structure so many bytes further on. -/
def Extent.moved (k : Nat) : Extent → Extent
  | .pending => .pending
  | .unbounded => .unbounded
  | .fixed stop => .fixed (stop + 8 * k)

namespace Context

theorem find?_moved (k : Nat) (ctx : Context) (name : String) :
    (ctx.moved k).find? name = (ctx.find? name).map (Value.moved k) := by
  unfold find? moved
  induction ctx.frames with
  | nil => rfl
  | cons frame frames ih =>
      rw [List.map_cons, List.findSome?_cons, List.findSome?_cons, Frame.get?_moved]
      cases frame.get? name with
      | none => exact ih
      | some v => rfl

/-- Going from field to field finds the same fields, moved. -/
theorem follow?_moved (k : Nat) (ctx : Context) (doc : Document) (path : List String) :
    (ctx.moved k).follow? doc path = (ctx.follow? doc path).map (Value.moved k) := by
  cases path with
  | nil => rfl
  | cons name names =>
      simp only [follow?, find?_moved]
      generalize ctx.find? name = v?
      induction names generalizing v? with
      | nil => rfl
      | cons name names ih =>
          rw [List.foldl_cons, List.foldl_cons, ← ih]
          cases v? with
          | none => rfl
          | some v => simp only [Option.map_some, Option.bind_some, Value.child?_moved]

/-- **Formulas do not see places.** -/
theorem scope_moved (k : Nat) (ctx : Context) (doc : Document) :
    (ctx.moved k).scope doc = ctx.scope doc := by
  funext path
  unfold scope
  rw [follow?_moved]
  cases ctx.follow? doc path with
  | none => rfl
  | some v => exact Value.int?_moved k v

theorem exhausted_moved (k : Nat) (ctx : Context) (pos : Nat) :
    (ctx.moved k).exhausted (pos + 8 * k) = ctx.exhausted pos := by
  unfold exhausted moved
  cases ctx.limit with
  | none => rfl
  | some limit => simp

theorem room_moved (k : Nat) (ctx : Context) (pos : Nat) :
    (ctx.moved k).room (pos + 8 * k) = ctx.room pos := by
  unfold room moved
  cases ctx.limit with
  | none => rfl
  | some limit =>
      dsimp only [Option.map_some]
      rw [Nat.add_sub_add_right]

/-- Surroundings inside a structure are moved with those of the structure. -/
theorem enter_moved (k : Nat) (outer : Context) (frame : Frame) (extent : Extent) :
    (outer.moved k).enter (frame.moved k) (extent.moved k) =
      (outer.enter frame extent).moved k := by
  unfold enter moved Extent.moved
  cases extent with
  | pending => rfl
  | unbounded => rfl
  | fixed stop =>
      cases outer.limit with
      | none => rfl
      | some limit =>
          simp only [Option.map_some, List.map_cons]
          rw [Nat.add_min_add_right]

theorem moved_zero (ctx : Context) : ctx.moved 0 = ctx := by
  have hid : Frame.moved 0 = id := funext Frame.moved_zero
  have hlimit : (fun limit => limit + 8 * 0) = (id : Nat → Nat) := rfl
  unfold moved
  rw [hid, List.map_id, hlimit, Option.map_id]
  rfl

end Context

/-! ## Failures -/

/-- A cause that tells of places so many bytes further on. -/
def Cause.moved (k : Nat) : Cause → Cause
  | .endOfInput offset needed available => .endOfInput (offset + k) needed available
  | .overrun offset needed available => .overrun (offset + k) needed available
  | .misaligned position => .misaligned (position + 8 * k)
  | cause => cause

/-- A failure that tells of places so many bytes further on. -/
def Failure.moved (k : Nat) (f : Failure) : Failure where
  cause := f.cause.moved k
  path := f.path
  salvage := f.salvage.map (Value.moved k)

namespace Cause

@[simp] theorem moved_zero (cause : Cause) : cause.moved 0 = cause := by
  cases cause <;> rfl

theorem endsRepetition_moved (k : Nat) (cause : Cause) :
    (cause.moved k).endsRepetition = cause.endsRepetition := by
  cases cause <;> rfl

/-- The cause tells of no place. -/
def Placeless (cause : Cause) : Prop := ∀ k, cause.moved k = cause

end Cause

theorem Failure.moved_zero (f : Failure) : f.moved 0 = f := by
  have hid : Value.moved 0 = id := funext Value.moved_zero
  unfold moved
  rw [Cause.moved_zero, hid, Option.map_id]
  rfl

/-- Calculations fail for causes that tell of no place. -/
theorem Cause.Calculated.placeless {cause : Cause} (h : cause.Calculated) : cause.Placeless := by
  intro k
  cases cause <;> first | rfl | exact h.elim

/-! ## Calculations without a place -/

namespace Decoder

variable {σ : Type} (d : Decoder σ) (ctx : Context) (i k : Nat)

theorem evaluate_moved (e : Expression) : d.evaluate (ctx.moved k) e = d.evaluate ctx e := by
  unfold evaluate
  rw [Context.scope_moved]

theorem lengthBits?_moved : d.lengthBits? (ctx.moved k) i = d.lengthBits? ctx i := by
  unfold lengthBits?
  simp only [evaluate_moved]

theorem lengthBytes?_moved : d.lengthBytes? (ctx.moved k) i = d.lengthBytes? ctx i := by
  unfold lengthBytes?
  rw [lengthBits?_moved]

theorem lengthBits_moved : d.lengthBits (ctx.moved k) i = d.lengthBits ctx i := by
  unfold lengthBits
  rw [lengthBits?_moved]

theorem lengthBytes_moved : d.lengthBytes (ctx.moved k) i = d.lengthBytes ctx i := by
  unfold lengthBytes
  rw [lengthBytes?_moved]

theorem extentBits?_moved : d.extentBits? (ctx.moved k) i = d.extentBits? ctx i := by
  unfold extentBits? total
  simp only [evaluate_moved]

end Decoder

/-! ## Calculations with places -/

/-- The positions up to one can be moved so many bytes further, and a number fits after them. -/
def Movable (k pos : Nat) : Prop := k = 0 ∨ pos + 8 * k + 72 ≤ Word.modulus

/-- Places that are moved are words if they were words before. -/
theorem Movable.word_iff {k pos n : Nat} (h : Movable k pos) (hn : n ≤ pos + 71) :
    n + 8 * k < Word.modulus ↔ n < Word.modulus := by
  unfold Movable at h
  omega

/-- The bytes that hold some bits are as many further on. -/
theorem Word.bytesOfBits_moved (bits k : Nat) :
    bytesOfBits (bits + 8 * k) = bytesOfBits bits + k := by
  unfold bytesOfBits
  omega

theorem Word.alignUp_moved (bits k : Nat) : alignUp (bits + 8 * k) = alignUp bits + 8 * k := by
  unfold alignUp
  rw [bytesOfBits_moved]
  omega

/-- A byte is as many further on. -/
theorem byte_moved (pos k : Nat) : (pos + 8 * k) / 8 = pos / 8 + k := by
  omega

namespace Value

theorem leaf_moved (i start stop k : Nat) (payload : Payload) :
    leaf i (start + 8 * k) (stop + 8 * k) payload = (leaf i start stop payload).moved k := by
  have hfirst : (start + 8 * k) % 8 = start % 8 := by omega
  have hlast : (stop + 8 * k) % 8 = stop % 8 := by omega
  unfold leaf
  dsimp only
  rw [moved, movedAll, byte_moved, hfirst, hlast, Word.bytesOfBits_moved,
    Nat.add_sub_add_right, Nat.add_sub_add_right]

end Value

namespace Decoder

variable {σ : Type} {k : Nat}

theorem structureValue_moved (label start pos : Nat) (children : List Value) :
    structureValue label (start + 8 * k) (pos + 8 * k) (children.map (Value.moved k)) =
      (structureValue label start pos children).moved k := by
  unfold structureValue
  rw [Value.moved, Value.movedAll_eq, Nat.add_sub_add_right, byte_moved]

theorem paddingBetween_moved (d : Decoder σ) (pos stop : Nat) :
    d.paddingBetween (pos + 8 * k) (stop + 8 * k) =
      (d.paddingBetween pos stop).map (Value.moved k) := by
  unfold paddingBetween
  dsimp only
  rw [Word.alignUp_moved]
  by_cases hgap : Word.alignUp pos < stop
  · rw [if_pos hgap, if_pos (by omega), List.map_singleton, Value.moved, Value.movedAll,
      Nat.add_sub_add_right, byte_moved]
  · rw [if_neg hgap, if_neg (by omega), List.map_nil]

/-- What is salvaged of a structure is moved with its fields and with what is salvaged of the next,
and overflows with them. -/
theorem inStructure_moved {n : Nat} {f g : Failure} (hg : g.salvage = f.salvage.map (Value.moved k))
    (hf : k = 0 ∨ f.Salvaged n ∧ n + k < Word.modulus) (label start pos : Nat)
    (children : List Value) :
    (inStructure label start pos children f = { cause := .overflow } ∧
      inStructure label (start + 8 * k) (pos + 8 * k) (children.map (Value.moved k)) g =
        { cause := .overflow }) ∨
    ∃ v, inStructure label start pos children f = { f with salvage := some v } ∧
      inStructure label (start + 8 * k) (pos + 8 * k) (children.map (Value.moved k)) g =
        { g with salvage := some (v.moved k) } := by
  unfold inStructure Failure.through
  dsimp only
  rw [hg, structureValue_moved, Nat.add_sub_add_right]
  by_cases hlong : pos - start + 7 < Word.modulus
  · rw [if_pos hlong, if_pos hlong]
    cases hpart : f.salvage with
    | none => exact Or.inr ⟨_, rfl, rfl⟩
    | some part =>
        have hstop : (part.moved k).stop = part.stop + k := by
          unfold Value.stop
          rw [Value.offset_moved, Value.length_moved]
          omega
        have hword : part.stop + k < Word.modulus ↔ part.stop < Word.modulus := by
          rcases hf with rfl | ⟨hin, hsmall⟩
          · rfl
          · have hle := hin part hpart
            omega
        dsimp only [Option.map_some]
        rw [hstop]
        by_cases hfar : part.stop < Word.modulus
        · rw [if_pos hfar, if_pos (hword.mpr hfar)]
          refine Or.inr ⟨_, rfl, ?_⟩
          simp [Value.moved, Value.movedAll_eq, Nat.add_sub_add_right]
        · rw [if_neg hfar, if_neg ((not_congr hword).mpr hfar)]
          exact Or.inl ⟨rfl, rfl⟩
  · rw [if_neg hlong, if_neg hlong]
    exact Or.inl ⟨rfl, rfl⟩

/-- The end of a structure is moved with it, unless it becomes too large. -/
theorem stopOf_moved (k start pos length : Nat) :
    (∃ stop, stopOf start pos length = .ok stop ∧
      stopOf (start + 8 * k) (pos + 8 * k) length = .ok (stop + 8 * k)) ∨
    (∃ cause, stopOf start pos length = .error cause ∧
      stopOf (start + 8 * k) (pos + 8 * k) length = .error (cause.moved k)) ∨
    (k ≠ 0 ∧
      stopOf (start + 8 * k) (pos + 8 * k) length = .error (.malformed .lengthTooLarge)) := by
  unfold stopOf Word.add?
  by_cases hfar : start + 8 * k + length < Word.modulus
  · rw [if_pos hfar, if_pos (show start + length < Word.modulus by omega)]
    dsimp only
    by_cases hlt : start + length < pos
    · -- the fields have passed the end
      rw [if_pos hlt, if_pos (by omega)]
      refine Or.inr (Or.inl ⟨_, rfl, ?_⟩)
      rw [Nat.add_sub_add_right, byte_moved]
      unfold Cause.through
      split
      · rfl
      · rfl
    · rw [if_neg hlt, if_neg (by omega)]
      exact Or.inl ⟨_, rfl, by congr 1; omega⟩
  · rw [if_neg hfar]
    by_cases hk : k = 0
    · subst hk
      rw [if_neg (show ¬start + length < Word.modulus by omega)]
      exact Or.inr (Or.inl ⟨_, rfl, rfl⟩)
    · exact Or.inr (Or.inr ⟨hk, rfl⟩)

end Decoder

end BinaryGrammar
