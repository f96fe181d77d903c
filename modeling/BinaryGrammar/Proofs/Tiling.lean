import BinaryGrammar.Proofs.Shape
import BinaryGrammar.Proofs.Session

/-!
# Tiling

The fields of a structure lie next to each other from its first bit on. What a structure of fixed
length has left after its last field, from the next byte on, is covered by one padding value, and
padding is found nowhere else. So the values of a tree that hold no others cover no bit twice.
-/

set_option autoImplicit false

namespace BinaryGrammar

/-- The first byte boundary at or after a bit position, as a bit position. -/
def roundUp (bit : Nat) : Nat := 8 * ((bit + 7) / 8)

namespace Document

theorem Reserved.body {doc : Document} (h : doc.Reserved) :
    (doc.element doc.padding).body = .padding := by
  unfold Reserved Element.kind at h
  cases hbody : (doc.element doc.padding).body with
  | padding => rfl
  | _ => rw [hbody] at h; cases h

/-- Padding opens no structure. -/
theorem Reserved.structureOf?_eq_none {doc : Document} (h : doc.Reserved) :
    doc.structureOf? doc.padding = none := by
  unfold structureOf?
  rw [h.body]

end Document

/-- The fields `declared` of a structure, which end at the bit position `stop`, and nothing but
padding after them make up the whole of it. -/
structure Tiled (doc : Document) (length : Option Expression) (w : Value) (declared : List Value)
    (stop : Nat) : Prop where
  whole : w.bits = none
  /-- The fields lie next to each other from the first bit of the structure on. -/
  tiles : Tiles (8 * w.offset) declared stop
  /-- No field is padding. -/
  fields : ∀ u ∈ declared, (doc.element u.element).body ≠ .padding
  /-- The structure ends with the byte in which the fields end, or one padding value goes on from
  there to the end. -/
  rest : (w.children = declared ∧ roundUp stop = 8 * (w.offset + w.length)) ∨
    ∃ pad, w.children = declared ++ [pad] ∧ Decoder.IsPadding doc pad ∧
      (doc.element pad.element).body = .padding ∧ pad.bitStart = roundUp stop ∧
      pad.bitStop = 8 * (w.offset + w.length)
  /-- A structure without a length ends with its last field. -/
  unbounded : length = none → w.children = declared ∧ stop = 8 * (w.offset + w.length)

/-! ## The end of a structure without a length -/

namespace Decoder

variable {σ : Type} {d : Decoder σ} {ctx outer : Context} {c c' : Cursor σ} {v : Value}
variable {read : ElementReader σ} {label i : Nat} {children : List Nat} {p₀ p₁ p₂ : Progress σ}
  {ts : List (Turn σ)} {padding : List Value}

/-- The end of a structure without a length is never settled at a place. -/
theorem Settles.unbounded_of_length {start : Nat} {last : Bool} {p p' : Progress σ}
    (hlength : d.document.length i = none) (h : Settles d outer i start last p p')
    (hp : ∀ stop, p.extent ≠ .fixed stop) : ∀ stop, p'.extent ≠ .fixed stop := by
  cases h with
  | known => exact hp
  | waits => exact hp
  | unbounded => intro stop; exact Extent.noConfusion
  | fixed _ hbits _ _ =>
      unfold extentBits? at hbits
      rw [hlength] at hbits
      cases hbits

theorem StructureRead.unbounded_of_length (hlength : d.document.length i = none)
    (h : StructureRead d read outer label i children c v c' p₀ p₁ p₂ ts padding) :
    ∀ stop, p₂.extent ≠ .fixed stop := by
  have hinit : ∀ stop, p₀.extent ≠ .fixed stop :=
    h.opened.unbounded_of_length hlength fun stop => Extent.noConfusion
  refine h.closed.unbounded_of_length hlength
    (h.turns.invariant (P := fun p => ∀ stop, p.extent ≠ .fixed stop) ?_ ?_ hinit)
  · intro p p' child w c₁ hp _ _ hsettle
    exact hsettle.unbounded_of_length hlength hp
  · intro p child failure c₁ hp _
    exact hp

/-! ## One structure -/

/-- Padding begins with the byte after the last field, and there is some unless the structure ends
there. -/
theorem paddingBetween_cases {pos stop : Nat} (hle : pos ≤ stop) (hstop : stop % 8 = 0) :
    (d.paddingBetween pos stop = [] ∧ roundUp pos = stop) ∨
    ∃ pad, d.paddingBetween pos stop = [pad] ∧ pad.bitStart = roundUp pos ∧ pad.bitStop = stop := by
  have hgap : Word.alignUp pos = roundUp pos := Nat.mul_comm ..
  unfold paddingBetween
  rw [hgap]
  by_cases hlt : roundUp pos < stop
  · refine Or.inr ⟨_, if_pos hlt, ?_, ?_⟩
    · change 8 * (roundUp pos / 8) + 0 = roundUp pos
      unfold roundUp
      omega
    · change 8 * (roundUp pos / 8 + (stop - roundUp pos) / 8) = stop
      unfold roundUp at hlt ⊢
      omega
  · refine Or.inl ⟨if_neg hlt, ?_⟩
    unfold roundUp at hlt ⊢
    omega

/-- **A structure is tiled with its fields and its padding.** -/
theorem StructureRead.tiled {levels : Nat} (hdoc : d.document.Reserved)
    (h : StructureRead d (d.readElement levels) ctx label i children c v c' p₀ p₁ p₂ ts padding)
    (hholds : ctx.Holds c) (hspans : v.Spans c.pos c'.pos) :
    Tiled d.document (d.document.length i) v p₂.frame.values.toList p₂.cursor.pos := by
  have hbits : v.bits = none := by
    rw [h.value]
    rfl
  have hstop : 8 * (v.offset + v.length) = c'.pos := by
    rw [← hspans.bitStop]
    unfold Value.bitStop
    rw [hbits]
  have htiles := h.tiles (readElement_spans levels)
  refine ⟨hbits, by rw [h.start]; exact htiles, ?_, ?_, ?_⟩
  · -- fields have been read, and padding cannot be
    intro u hu
    obtain ⟨before, after, hsplit⟩ := List.append_of_mem hu
    obtain ⟨_, _, _, _, hread⟩ := (h.sound (maintains_true d) trivial hholds).fields hsplit
    exact readElement_ne_padding hread
  · -- the structure goes on to its settled end, or ends with its last field
    rw [hstop]
    have hchildren := h.children_eq
    rcases h.ending with ⟨stop, c₁, u, hext, _, hpad, _, hc'⟩ | ⟨_, hal, hpad, hc'⟩
    · have hle : p₂.cursor.pos ≤ stop :=
        pos_le_stop hext (h.holds (readElement_holds levels) hholds)
      have hpos : c'.pos = stop := by rw [hc']
      rcases paddingBetween_cases (d := d) hle (h.stop_aligned hext) with
        ⟨hnone, hround⟩ | ⟨pad, hone, hfirst, hlast⟩
      · left
        rw [hchildren, hpad, hnone, List.append_nil, hround, hpos]
        exact ⟨rfl, rfl⟩
      · right
        have hpadding : IsPadding d.document pad :=
          h.isPadding (by rw [hpad, hone]; exact List.mem_singleton_self _)
        refine ⟨pad, by rw [hchildren, hpad, hone], hpadding, ?_, hfirst, by rw [hlast, hpos]⟩
        rw [hpadding.element]
        exact hdoc.body
    · left
      rw [hchildren, hpad, List.append_nil, hc']
      refine ⟨rfl, ?_⟩
      unfold roundUp
      omega
  · -- without a length there is no settled end to go to, and so no gap before it
    intro hlength
    rcases h.ending with ⟨stop, c₁, u, hext, _⟩ | ⟨_, _, hpad, hc'⟩
    · exact absurd hext (h.unbounded_of_length hlength stop)
    · rw [hstop, hc', h.children_eq, hpad]
      exact ⟨List.append_nil _, rfl⟩

end Decoder

/-! ## The whole tree -/

namespace Value

mutual

/-- The values of a tree that hold no others, in order. -/
def leaves : Value → List Value
  | ⟨element, offset, length, bits, payload, []⟩ => [⟨element, offset, length, bits, payload, []⟩]
  | ⟨_, _, _, _, _, v :: vs⟩ => leavesOf (v :: vs)

/-- The same for trees next to each other. -/
def leavesOf : List Value → List Value
  | [] => []
  | v :: vs => leaves v ++ leavesOf vs

end

theorem leavesOf_eq (vs : List Value) : leavesOf vs = vs.flatMap leaves := by
  induction vs with
  | nil => rw [leavesOf, List.flatMap_nil]
  | cons v vs ih => rw [leavesOf, ih, List.flatMap_cons]

theorem leaves_of_nil {v : Value} (h : v.children = []) : v.leaves = [v] := by
  obtain ⟨element, offset, length, bits, payload, children⟩ := v
  change children = [] at h
  subst h
  rw [leaves]

theorem leaves_of_ne_nil {v : Value} (h : v.children ≠ []) :
    v.leaves = v.children.flatMap leaves := by
  obtain ⟨element, offset, length, bits, payload, children⟩ := v
  cases children with
  | nil => exact absurd rfl h
  | cons u us => rw [leaves, leavesOf_eq]

/-- One value ends where another begins, or before. -/
def Precedes (v w : Value) : Prop := v.bitStop ≤ w.bitStart

/-- One value lies inside another. -/
def Inside (v w : Value) : Prop := w.bitStart ≤ v.bitStart ∧ v.bitStop ≤ w.bitStop

instance (v w : Value) : Decidable (Precedes v w) :=
  inferInstanceAs (Decidable (v.bitStop ≤ w.bitStart))

theorem sizeOf_lt_of_mem_children {v u : Value} (h : u ∈ v.children) : sizeOf u < sizeOf v := by
  obtain ⟨element, offset, length, bits, payload, children⟩ := v
  have hlt : sizeOf u < sizeOf children := List.sizeOf_lt_of_mem h
  rw [mk.sizeOf_spec]
  omega

/-- If the fields of every value in a tree lie in order inside it, so do all values that hold no
others. -/
theorem leaves_precede {σ : Type} {d : Decoder σ} (v : Value) {ctx : Context}
    (hnodes : ∀ ctx' w, Occurs d ctx v ctx' w →
      w.children.Pairwise Precedes ∧ ∀ u ∈ w.children, u.Inside w) :
    v.leaves.Pairwise Precedes ∧ ∀ u ∈ v.leaves, u.Inside v := by
  by_cases hnil : v.children = []
  · rw [leaves_of_nil hnil]
    refine ⟨List.pairwise_singleton _ _, fun u hu => ?_⟩
    rw [List.mem_singleton.mp hu]
    exact ⟨Nat.le_refl _, Nat.le_refl _⟩
  · obtain ⟨hordered, hinside⟩ := hnodes ctx v .root
    -- the induction is on the size of the tree, so that it can be used for each field
    have hchild : ∀ u ∈ v.children,
        u.leaves.Pairwise Precedes ∧ ∀ x ∈ u.leaves, x.Inside u := by
      intro u hu
      obtain ⟨before, after, hsplit⟩ := List.append_of_mem hu
      exact leaves_precede u fun ctx' w hw => hnodes ctx' w (.field hsplit hw)
    rw [leaves_of_ne_nil hnil]
    refine ⟨List.pairwise_flatMap.mpr ⟨fun u hu => (hchild u hu).1, ?_⟩, ?_⟩
    · -- what is inside a field comes before what is inside a later one
      refine hordered.imp_of_mem fun {a b} ha hb hab x hx y hy => ?_
      exact Nat.le_trans ((hchild a ha).2 x hx).2 (Nat.le_trans hab ((hchild b hb).2 y hy).1)
    · intro x hx
      obtain ⟨u, hu, hxu⟩ := List.mem_flatMap.mp hx
      have hin := (hchild u hu).2 x hxu
      exact ⟨Nat.le_trans (hinside u hu).1 hin.1, Nat.le_trans hin.2 (hinside u hu).2⟩
  termination_by sizeOf v
  decreasing_by exact sizeOf_lt_of_mem_children hu

end Value

/-- If the fields of every value in a tree lie inside it, so does all that is in the tree. -/
theorem Occurs.inside {σ : Type} {d : Decoder σ} {ctx ctx' : Context} {v w : Value}
    (h : Occurs d ctx v ctx' w) :
    (∀ ctx' u, Occurs d ctx v ctx' u → ∀ x ∈ u.children, x.Inside u) → w.Inside v := by
  induction h with
  | root => exact fun _ => ⟨Nat.le_refl _, Nat.le_refl _⟩
  | field hchildren _ ih =>
      intro hnodes
      have hin := ih fun ctx' u hu => hnodes ctx' u (.field hchildren hu)
      have hchild := hnodes _ _ .root _
        (by rw [hchildren]; exact List.mem_append_right _ List.mem_cons_self)
      exact ⟨Nat.le_trans hchild.1 hin.1, Nat.le_trans hin.2 hchild.2⟩

/-- Values next to each other lie in order between the ends. -/
theorem Tiles.ordered : ∀ {vs : List Value} {start stop : Nat}, Tiles start vs stop →
    vs.Pairwise Value.Precedes ∧ ∀ u ∈ vs, start ≤ u.bitStart ∧ u.bitStop ≤ stop
  | [], _, _, _ => ⟨List.Pairwise.nil, fun u hu => by cases hu⟩
  | v :: vs, start, stop, ⟨hv, hle, hrest⟩ => by
      obtain ⟨hordered, hbetween⟩ := hrest.ordered
      refine ⟨List.pairwise_cons.mpr ⟨fun u hu => (hbetween u hu).1, hordered⟩, fun u hu => ?_⟩
      rcases List.mem_cons.mp hu with hu | hu
      · rw [hu]
        exact ⟨Nat.le_of_eq hv.symm, hrest.le⟩
      · exact ⟨Nat.le_trans hle (hbetween u hu).1, (hbetween u hu).2⟩

/-- The fields and the padding of a structure lie in order inside it. -/
theorem Tiled.ordered {doc : Document} {length : Option Expression} {w : Value}
    {declared : List Value} {stop : Nat} (h : Tiled doc length w declared stop) :
    w.children.Pairwise Value.Precedes ∧ ∀ u ∈ w.children, u.Inside w := by
  have hstart : w.bitStart = 8 * w.offset := by unfold Value.bitStart; rw [h.whole]; rfl
  have hstop : w.bitStop = 8 * (w.offset + w.length) := by unfold Value.bitStop; rw [h.whole]
  obtain ⟨hordered, hbetween⟩ := h.tiles.ordered
  have hround : stop ≤ roundUp stop := by unfold roundUp; omega
  unfold Value.Inside
  rw [hstart, hstop]
  rcases h.rest with ⟨hchildren, hend⟩ | ⟨pad, hchildren, hpad, _, hfirst, hlast⟩
  · rw [hchildren, ← hend]
    exact ⟨hordered, fun u hu => ⟨(hbetween u hu).1, Nat.le_trans (hbetween u hu).2 hround⟩⟩
  · -- the padding begins after the byte in which the fields end
    have hpadded : pad.bitStart ≤ pad.bitStop := by
      unfold Value.bitStart Value.bitStop
      rw [hpad.bits]
      dsimp only
      omega
    rw [hfirst, hlast] at hpadded
    rw [hchildren]
    refine ⟨List.pairwise_append.mpr ⟨hordered, List.pairwise_singleton _ _, ?_⟩, ?_⟩
    · intro u hu x hx
      rw [List.mem_singleton.mp hx]
      unfold Value.Precedes
      rw [hfirst]
      exact Nat.le_trans (hbetween u hu).2 hround
    · intro u hu
      rcases List.mem_append.mp hu with hu | hu
      · exact ⟨(hbetween u hu).1,
          Nat.le_trans (hbetween u hu).2 (Nat.le_trans hround hpadded)⟩
      · rw [List.mem_singleton.mp hu, hfirst, hlast]
        exact ⟨Nat.le_trans h.tiles.le hround, Nat.le_refl _⟩

namespace Decoder

variable {σ : Type} {d : Decoder σ} {ctx : Context} {c c' : Cursor σ} {v w : Value}

/-- A value that opens a structure is tiled, and any other value holds nothing. -/
def NodeTiled (doc : Document) (w : Value) : Prop :=
  match doc.structureOf? w.element with
  | some (i, _) => ∃ declared stop, Tiled doc (doc.length i) w declared stop
  | none => w.children = []

theorem ReadIn.nodeTiled {levels : Nat} {J : Cursor σ → Prop} (hdoc : d.document.Reserved)
    (h : ReadIn d levels J ctx w) : NodeTiled d.document w := by
  obtain ⟨c, c', _, hholds, hread⟩ := h
  have hspans := readElement_spans levels hread
  unfold NodeTiled
  rcases readElement_cases hread with
    ⟨n, s, body, p₀, p₁, p₂, ts, padding, _, hs, hread⟩ | ⟨hs, hfield⟩
  · rw [hs]
    exact ⟨_, _, hread.tiled hdoc hholds hspans⟩
  · obtain ⟨payload, hv⟩ := hfield.value
    rw [hs, hv]
    rfl

theorem IsPadding.nodeTiled (hdoc : d.document.Reserved) (h : IsPadding d.document w) :
    NodeTiled d.document w := by
  unfold NodeTiled
  rw [h.element, hdoc.structureOf?_eq_none]
  exact h.children

theorem NodeTiled.ordered {doc : Document} (h : NodeTiled doc w) :
    w.children.Pairwise Value.Precedes ∧ ∀ u ∈ w.children, u.Inside w := by
  unfold NodeTiled at h
  split at h
  · obtain ⟨declared, stop, h⟩ := h
    exact h.ordered
  · rw [h]
    exact ⟨List.Pairwise.nil, fun u hu => by cases hu⟩

/-- A step that gives a value has read it, with nothing around it. -/
theorem step_some {s : Step} (h : d.step s c = .ok (some v) c') : ∃ i, d.read i c = .ok v c' := by
  cases s with
  | seek offset =>
      obtain ⟨_, c₁, _, h⟩ := Reader.bind_ok h
      cases h
  | decode =>
      obtain ⟨u, c₁, hread, h⟩ := Reader.bind_ok h
      cases h
      rcases Machine.decode_cases d with ⟨i, hi⟩ | hnone
      · rw [hi] at hread
        exact ⟨i, hread⟩
      · rw [hnone] at hread
        cases hread
  | read i =>
      obtain ⟨u, c₁, hread, h⟩ := Reader.bind_ok h
      cases h
      exact ⟨i, hread⟩

/-- A value of a tree that opens a structure has been read as one. -/
theorem occurs_structureRead {J : Cursor σ → Prop} (hJ : d.Maintains J) (hdoc : d.document.Reserved)
    {i s : Nat} {body : StructBody} (hc : J c) (h : d.read i c = .ok v c')
    (hw : Occurs d {} v ctx w) (hs : d.document.structureOf? w.element = some (s, body)) :
    ∃ levels c₁ c₂ p₀ p₁ p₂ ts padding, J c₁ ∧ ctx.Holds c₁ ∧
      StructureRead d (d.readElement levels) ctx w.element s body.elements c₁ w c₂ p₀ p₁ p₂ ts
        padding := by
  rcases occurs_read hJ _ h hc (by intro l hl; cases hl) hw with
    hpad | ⟨levels, c₁, c₂, hc₁, hholds, hread⟩
  · rw [hpad.element, hdoc.structureOf?_eq_none] at hs
    cases hs
  · rcases readElement_cases hread with
      ⟨n, s', body', p₀, p₁, p₂, ts, padding, _, hs', hstructure⟩ | ⟨hnone, _⟩
    · cases hs'.symm.trans hs
      exact ⟨n, c₁, c₂, p₀, p₁, p₂, ts, padding, hc₁, hholds, hstructure⟩
    · rw [hnone] at hs
      cases hs

/-- Every value of a tree that was read is tiled. -/
theorem occurs_nodeTiled (hdoc : d.document.Reserved) {i : Nat} (h : d.read i c = .ok v c')
    (hw : Occurs d {} v ctx w) : NodeTiled d.document w := by
  rcases occurs_read (maintains_true d) _ h trivial (by intro l hl; cases hl) hw with
    hpad | ⟨levels, hin⟩
  · exact hpad.nodeTiled hdoc
  · exact hin.nodeTiled hdoc

/-- **Decoded trees are tiled.** In a tree that a step of a session gives, every structure that was
entered is made up of its fields, one after another without gaps from its first bit on, and, if a
whole byte is left of its length, one padding value. The root is not padding, and neither is any
field; the values that hold no others cover no bit twice. -/
theorem step_tiles {s : Step} (hdoc : d.document.Made) (h : d.step s c = .ok (some v) c') :
    (d.document.element v.element).body ≠ .padding ∧
    (∀ ctx w, Occurs d {} v ctx w → NodeTiled d.document w) ∧
    v.leaves.Pairwise Value.Precedes := by
  obtain ⟨i, hread⟩ := step_some h
  have hnodes : ∀ ctx w, Occurs d {} v ctx w → NodeTiled d.document w :=
    fun ctx w hw => occurs_nodeTiled hdoc.reserved hread hw
  refine ⟨?_, hnodes, ?_⟩
  · rw [readElement_element hread]
    exact readElement_ne_padding hread
  · exact (Value.leaves_precede v fun ctx w hw => (hnodes ctx w hw).ordered).1

/-- In the box of three bytes the two values that cover bytes and the one between them that covers
nothing follow each other. -/
theorem step_tiles_boxes : ∃ v c, Document.boxes.Made ∧
    boxes.step .decode { source := #[1, 2, 3] } = .ok (some v) c ∧
    NodeTiled Document.boxes v ∧ v.leaves.map (·.bitStart) = [0, 8, 8] ∧
    v.leaves.Pairwise Value.Precedes := by
  have h : boxes.step .decode { source := #[1, 2, 3] } =
      .ok (some _) { pos := 24, source := #[1, 2, 3] } := rfl
  have htiles := step_tiles (d := boxes) (s := .decode) (.ofParts ..) h
  exact ⟨_, _, .ofParts .., rfl, htiles.2.1 _ _ .root, by decide, htiles.2.2⟩

end Decoder

end BinaryGrammar
