import BinaryGrammar.Proofs.Structure

/-!
# What is known of the end of a structure

While a structure is read, its end is settled as soon as the length has a value. What is known of it
at any time can be told from the fields read so far: the first of them, from none on, after which
the length has a value decide. The same fields make up the frame. So the surroundings in which a
field is read are given by those of the structure and by the fields before it, without looking at
the run.
-/

set_option autoImplicit false

namespace BinaryGrammar

namespace Frame

/-- Add fields in order. -/
def pushAll (doc : Document) (frame : Frame) (vs : List Value) : Frame :=
  vs.foldl (fun frame v => frame.push (doc.element v.element).name v) frame

/-- The frame with the given fields. -/
def ofValues (doc : Document) (vs : List Value) : Frame := pushAll doc {} vs

theorem pushAll_concat (doc : Document) (frame : Frame) (vs : List Value) (v : Value) :
    pushAll doc frame (vs ++ [v]) =
      (pushAll doc frame vs).push (doc.element v.element).name v := by
  unfold pushAll
  rw [List.foldl_append]
  rfl

theorem values_push (frame : Frame) (name : String) (v : Value) :
    (frame.push name v).values = frame.values.push v := by
  unfold push
  split <;> rfl

end Frame

/-- The surroundings of the fields of a structure, given its frame and what is known of its end. -/
def Context.enter (outer : Context) (frame : Frame) (extent : Extent) : Context where
  frames := frame :: outer.frames
  limit :=
    match extent with
    | .fixed stop => some (match outer.limit with | some limit => min limit stop | none => stop)
    | _ => outer.limit

namespace Progress

variable {σ : Type} {p : Progress σ} {outer : Context}

theorem context_eq : p.context outer = outer.enter p.frame p.extent := rfl

/-- The values of a structure after one more field. -/
theorem values_push (doc : Document) (p : Progress σ) (c : Cursor σ) (v : Value) :
    (Progress.push { p with cursor := c } doc v).frame.values.toList =
      p.frame.values.toList ++ [v] := by
  unfold Progress.push
  rw [Frame.values_push, Array.toList_push]

end Progress

namespace Decoder

variable {σ : Type}

/-- What is known of the end of a structure once its fields are those in a frame. -/
def extentNow (d : Decoder σ) (outer : Context) (i start : Nat) (frame : Frame) : Extent → Extent
  | .pending =>
    match d.extentBits? (outer.enter frame .pending) i with
    | .ok none => .unbounded
    | .ok (some length) => .fixed (start + length)
    | .error _ => .pending
  | extent => extent

/-- What is known of the end after more fields, one after another. -/
def extentFrom (d : Decoder σ) (outer : Context) (i start : Nat) :
    Frame → Extent → List Value → Extent
  | _, extent, [] => extent
  | frame, extent, v :: vs =>
    let frame := frame.push (d.document.element v.element).name v
    d.extentFrom outer i start frame (d.extentNow outer i start frame extent) vs

/-- What is known of the end of a structure after the given fields. -/
def extentAfter (d : Decoder σ) (outer : Context) (i start : Nat) (vs : List Value) : Extent :=
  d.extentFrom outer i start {} (d.extentNow outer i start {} .pending) vs

variable {d : Decoder σ} {outer : Context} {i start : Nat}

theorem extentFrom_concat (v : Value) : ∀ (vs : List Value) (frame : Frame) (extent : Extent),
    d.extentFrom outer i start frame extent (vs ++ [v]) =
      d.extentNow outer i start (frame.pushAll d.document (vs ++ [v]))
        (d.extentFrom outer i start frame extent vs)
  | [], _, _ => rfl
  | _ :: vs, _, _ => extentFrom_concat v vs _ _

theorem extentAfter_concat (vs : List Value) (v : Value) :
    d.extentAfter outer i start (vs ++ [v]) =
      d.extentNow outer i start (.ofValues d.document (vs ++ [v]))
        (d.extentAfter outer i start vs) :=
  extentFrom_concat v vs _ _

theorem extentNow_known {frame : Frame} {extent : Extent} (h : extent ≠ .pending) :
    d.extentNow outer i start frame extent = extent := by
  cases extent with
  | pending => exact absurd rfl h
  | unbounded => rfl
  | fixed stop => rfl

/-- To try again with the same fields changes nothing. -/
theorem extentNow_again (frame : Frame) (extent : Extent) :
    d.extentNow outer i start frame (d.extentNow outer i start frame extent) =
      d.extentNow outer i start frame extent := by
  by_cases hpending : extent = .pending
  · subst hpending
    by_cases h : d.extentNow outer i start frame .pending = .pending
    · rw [h]
      exact h
    · exact extentNow_known h
  · rw [extentNow_known hpending]
    exact extentNow_known hpending

theorem extentAfter_again (vs : List Value) :
    d.extentNow outer i start (.ofValues d.document vs) (d.extentAfter outer i start vs) =
      d.extentAfter outer i start vs := by
  rcases List.eq_nil_or_concat vs with hnil | ⟨us, v, hconcat⟩
  · subst hnil
    exact extentNow_again {} .pending
  · rw [hconcat, List.concat_eq_append, extentAfter_concat]
    exact extentNow_again _ _

/-- What settling finds out is what can be known from the fields. -/
theorem Settles.extent {last : Bool} {p p' : Progress σ} (h : Settles d outer i start last p p') :
    p'.extent = d.extentNow outer i start p.frame p.extent := by
  cases h with
  | known hknown => rw [extentNow_known hknown]
  | waits hpending hbits _ _ =>
      rw [Progress.context_eq, hpending] at hbits
      rw [hpending]
      unfold extentNow
      rw [hbits]
  | unbounded hpending hbits =>
      rw [Progress.context_eq, hpending] at hbits
      rw [hpending]
      unfold extentNow
      rw [hbits]
  | fixed hpending hbits _ _ =>
      rw [Progress.context_eq, hpending] at hbits
      rw [hpending]
      unfold extentNow
      rw [hbits]

/-- The length of a structure names a field that is not among the given ones. -/
def LengthUnknown (d : Decoder σ) (outer : Context) (i : Nat) (vs : List Value) : Prop :=
  ∃ cause, d.extentBits? (outer.enter (.ofValues d.document vs) .pending) i = .error cause ∧
    cause.isUnknownName = true

theorem Settles.unknown {last : Bool} {p p' : Progress σ} (h : Settles d outer i start last p p')
    (hp : p'.extent = .pending) :
    ∃ cause, d.extentBits? (outer.enter p.frame .pending) i = .error cause ∧
      cause.isUnknownName = true := by
  cases h with
  | known hknown => exact absurd hp hknown
  | waits hpending hbits hunknown _ =>
      rw [Progress.context_eq, hpending] at hbits
      exact ⟨_, hbits, hunknown⟩
  | unbounded => cases hp
  | fixed => cases hp

/-- The progress of a structure keeps to what its fields say. As long as the end is not known, the
length names a field that is still to come. -/
structure Tracked (d : Decoder σ) (outer : Context) (i start : Nat) (p : Progress σ) : Prop where
  frame : p.frame = .ofValues d.document p.frame.values.toList
  extent : p.extent = d.extentAfter outer i start p.frame.values.toList
  unknown : ∀ {before after : List Value}, p.frame.values.toList = before ++ after →
    d.extentAfter outer i start before = .pending → LengthUnknown d outer i before

namespace Tracked

variable {p p' : Progress σ} {c : Cursor σ} {v : Value}

/-- The end is settled before the first field, if it can be. -/
theorem opened (h : Settles d outer i start false { cursor := c } p) :
    Tracked d outer i start p := by
  have hframe : p.frame = {} := h.frame
  refine ⟨by rw [hframe]; rfl, ?_, ?_⟩
  · rw [h.extent, hframe]
    rfl
  · intro before after hsplit hpending
    rw [hframe] at hsplit
    obtain ⟨hbefore, _⟩ := List.append_eq_nil_iff.mp hsplit.symm
    subst hbefore
    exact h.unknown (h.extent.trans hpending)

theorem settles {last : Bool} (hp : Tracked d outer i start p)
    (h : Settles d outer i start last p p') : Tracked d outer i start p' where
  frame := by rw [h.frame]; exact hp.frame
  extent := by
    rw [h.extent, h.frame, hp.extent]
    exact (congrArg (d.extentNow outer i start · _) hp.frame).trans (extentAfter_again _)
  unknown := by rw [h.frame]; exact hp.unknown

/-- One more field, and settling after it. -/
theorem push (hp : Tracked d outer i start p)
    (h : Settles d outer i start false (Progress.push { p with cursor := c } d.document v) p') :
    Tracked d outer i start p' := by
  have hvalues : p'.frame.values.toList = p.frame.values.toList ++ [v] := by
    rw [h.frame, Progress.values_push]
  have hframe : p'.frame = .ofValues d.document p'.frame.values.toList := by
    rw [hvalues]
    unfold Frame.ofValues
    rw [Frame.pushAll_concat, h.frame]
    exact congrArg (Frame.push · _ v) hp.frame
  have hextent : p'.extent = d.extentAfter outer i start p'.frame.values.toList := by
    rw [hvalues, extentAfter_concat, ← hp.extent, h.extent, ← h.frame, hframe, hvalues]
    rfl
  refine ⟨hframe, hextent, ?_⟩
  intro before after hsplit hpending
  rcases List.eq_nil_or_concat after with hafter | ⟨after', w, hafter⟩
  · -- all fields, with the new one among them
    subst hafter
    rw [List.append_nil] at hsplit
    rw [← hsplit] at hpending ⊢
    obtain ⟨cause, hbits, hunknown⟩ := h.unknown (hextent.trans hpending)
    rw [← h.frame, hframe] at hbits
    exact ⟨cause, hbits, hunknown⟩
  · subst hafter
    rw [hvalues, List.concat_eq_append, ← List.append_assoc] at hsplit
    exact hp.unknown (List.append_inj' hsplit rfl).1 hpending

/-- Only the cursor has changed. -/
theorem moved (hp : Tracked d outer i start p) : Tracked d outer i start { p with cursor := c } :=
  ⟨hp.frame, hp.extent, hp.unknown⟩

end Tracked

end Decoder

end BinaryGrammar
