import Mathlib
import BinaryGrammar.Proofs.Failing
import BinaryGrammar.Proofs.FixedLength

/-!
# What is kept of a failed read

A failure carries what was decoded before it: a tree that grows from the place of the failure
outwards, one structure at a time. The statement here is that this tree is placed as a whole one is,
up to the last child of each structure on the way: the children lie in order inside their parent,
all but the last were read and lie next to each other from its first bit on, and nothing that covers
bytes leaves the source. The way to the failure goes down the last children, and its names are those
that the failure tells.
-/

set_option autoImplicit false

namespace BinaryGrammar

/-- One value stands in the tree of another. -/
inductive Value.Has : Value → Value → Prop where
  | self {v : Value} : Has v v
  | child {v u w : Value} : u ∈ v.children → Has u w → Has v w

theorem Value.Has.occurs {σ : Type} {d : Decoder σ} {v w : Value} (h : v.Has w) :
    ∀ ctx, ∃ ctx', Occurs d ctx v ctx' w := by
  induction h with
  | self => exact fun ctx => ⟨ctx, .root⟩
  | child hu _ ih =>
      intro ctx
      obtain ⟨before, after, hsplit⟩ := List.append_of_mem hu
      obtain ⟨ctx', hw⟩ := ih _
      exact ⟨ctx', .field hsplit hw⟩

/-- Without the last of them, values next to each other end where that one begins. -/
theorem Tiles.init {last : Value} : ∀ {vs : List Value} {start stop : Nat},
    Tiles start (vs ++ [last]) stop → Tiles start vs last.bitStart
  | [], _, _, ⟨hlast, _⟩ => hlast.symm
  | _ :: _, _, _, ⟨hv, hle, hrest⟩ => ⟨hv, hle, hrest.init⟩

/-- A value with part of one more child, to the end of which it goes on. -/
def Value.withPart (v q : Value) : Value :=
  { v with
    length := max v.length (q.stop - v.offset)
    children := v.children ++ [q] }

namespace Decoder

variable {σ : Type} {d : Decoder σ} {n : Nat} {I : σ → Prop} {ctx outer : Context}
  {c c' : Cursor σ} {v w : Value} {f : Failure}

/-- What a structure keeps of a failure is its fields, or its fields and a part of one more. -/
theorem inStructure_salvage {label start pos : Nat} {children : List Value} {p : Value}
    (h : (inStructure label start pos children f).salvage = some p) :
    inStructure label start pos children f = { f with salvage := some p } ∧
      (f.salvage = none ∧ p = structureValue label start pos children ∨
        ∃ q, f.salvage = some q ∧ p = (structureValue label start pos children).withPart q) := by
  unfold inStructure Failure.through at h ⊢
  dsimp only at h ⊢
  split at h
  · rename_i hlong
    rw [if_pos hlong]
    cases hpart : f.salvage with
    | none =>
        simp only [hpart] at h ⊢
        cases h
        exact ⟨rfl, Or.inl ⟨trivial, rfl⟩⟩
    | some q =>
        simp only [hpart] at h ⊢
        split at h
        · rename_i hfar
          rw [if_pos hfar]
          cases h
          exact ⟨rfl, Or.inr ⟨q, rfl, rfl⟩⟩
        · cases h
  · cases h

/-- A value that a read has given, somewhere in a source of `n` bytes. -/
def Complete (d : Decoder σ) (n : Nat) (I : σ → Prop) (v : Value) : Prop :=
  ∃ levels ctx, ReadIn d levels (Within n I) ctx v

/-- A value of a tree stands where it should, in a source of `n` bytes. -/
structure WellPlaced (d : Decoder σ) (n : Nat) (I : σ → Prop) (w : Value) : Prop where
  /-- The children follow each other without overlap. -/
  ordered : w.children.Pairwise Value.Precedes
  /-- The bytes of each child are bytes of the value. -/
  inside : ∀ u ∈ w.children, w.offset ≤ u.offset ∧ u.offset + u.length ≤ w.offset + w.length
  /-- All children but the last are complete and lie next to each other from the first bit on. -/
  tiled : ∀ before last, w.children = before ++ [last] →
    (∃ stop, Tiles (8 * w.offset) before stop) ∧ ∀ u ∈ before, Complete d n I u
  /-- What covers bytes lies inside the source. -/
  source : 0 < w.length → w.offset + w.length ≤ n

theorem WellPlaced.of_nil (h : w.children = []) (hsource : 0 < w.length → w.offset + w.length ≤ n) :
    WellPlaced d n I w where
  ordered := by rw [h]; exact .nil
  inside := fun u hu => by rw [h] at hu; cases hu
  tiled := fun before last hsplit => by rw [h] at hsplit; simp at hsplit
  source := hsource

/-! ## Complete trees -/

section

variable (hbounded : d.Bounded n I)
include hbounded

omit hbounded in
/-- A value that was read tells its place, and so do all values in its tree. -/
theorem ReadIn.told {levels : Nat} {ctx' : Context} (h : ReadIn d levels (Within n I) ctx v)
    (hw : Occurs d ctx v ctx' w) : w.BytesTold := by
  obtain ⟨c, c', hc, hholds, hread⟩ := h
  rcases occurs_read (maintains_true d) levels hread trivial hholds hw with
    hpad | ⟨levels', c₁, c₂, _, _, hread₁⟩
  · exact .of_whole hpad.bits
  · exact (readElement_spans levels' hread₁).bytesTold

variable (hdoc : d.document.Reserved)
include hdoc

omit hbounded in
theorem ReadIn.nodeTiled_of_occurs {levels : Nat} {ctx' : Context}
    (h : ReadIn d levels (Within n I) ctx v) (hw : Occurs d ctx v ctx' w) :
    NodeTiled d.document w := by
  obtain ⟨c, c', hc, hholds, hread⟩ := h
  rcases occurs_read (maintains_true d) levels hread trivial hholds hw with
    hpad | ⟨levels', hin⟩
  · exact hpad.nodeTiled hdoc
  · exact hin.nodeTiled hdoc

/-- A value of a complete tree that is not padding is complete. -/
theorem ReadIn.complete_of_occurs {levels : Nat} {ctx' : Context}
    (h : ReadIn d levels (Within n I) ctx v) (hw : Occurs d ctx v ctx' w)
    (hbody : (d.document.element w.element).body ≠ .padding) : Complete d n I w := by
  obtain ⟨c, c', hc, hholds, hread⟩ := h
  rcases occurs_read hbounded.maintains_within levels hread hc hholds hw with
    hpad | ⟨levels', hin⟩
  · rw [hpad.element, hdoc.body] at hbody
    exact absurd rfl hbody
  · exact ⟨levels', _, hin⟩

/-- What covers bytes in a complete tree lies inside the source. -/
theorem ReadIn.inside_source {levels : Nat} {ctx' : Context}
    (h : ReadIn d levels (Within n I) ctx v) (hw : Occurs d ctx v ctx' w) (hlength : 0 < w.length) :
    w.offset + w.length ≤ n := by
  have hinside : w.Inside v := hw.inside fun ctx' u hu =>
    (h.nodeTiled_of_occurs hdoc hu).ordered.2
  have htold := h.told hw
  obtain ⟨c, c', hc, hholds, hread⟩ := h
  exact hc.inside_source (hbounded.readElement_reaches levels hread hc)
    (readElement_spans levels hread) htold hinside hlength

/-- **A read that succeeds gives a tree with every value in its place.** -/
theorem ReadIn.wellPlaced {levels : Nat} (h : ReadIn d levels (Within n I) ctx v) (hw : v.Has w) :
    WellPlaced d n I w := by
  obtain ⟨ctx', hw⟩ := hw.occurs ctx
  have hnode := h.nodeTiled_of_occurs hdoc hw
  have hchild : ∀ u ∈ w.children, ∃ ctx', Occurs d ctx v ctx' u := by
    intro u hu
    obtain ⟨ctx'', hu⟩ := (Value.Has.child hu .self).occurs (d := d) ctx'
    exact ⟨ctx'', hw.trans hu⟩
  refine ⟨hnode.ordered.1, ?_, ?_, h.inside_source hbounded hdoc hw⟩
  · intro u hu
    obtain ⟨ctx'', hoccurs⟩ := hchild u hu
    exact bytes_inside (h.told hw) (h.told hoccurs) (hnode.ordered.2 u hu)
  · intro before last hsplit
    unfold NodeTiled at hnode
    split at hnode
    · obtain ⟨declared, stop, htiled⟩ := hnode
      have hbefore : (∃ stop, Tiles (8 * w.offset) before stop) ∧ ∀ u ∈ before, u ∈ declared := by
        rcases htiled.rest with ⟨hchildren, _⟩ | ⟨pad, hchildren, _⟩
        · -- the last child is a field
          have htiles := htiled.tiles
          rw [← hchildren, hsplit] at htiles
          refine ⟨⟨_, htiles.init⟩, fun u hu => ?_⟩
          rw [← hchildren, hsplit]
          exact List.mem_append_left _ hu
        · -- the last child is padding
          obtain ⟨hsame, _⟩ := List.append_inj' (hsplit.symm.trans hchildren) rfl
          rw [hsame]
          exact ⟨⟨stop, htiled.tiles⟩, fun u hu => hu⟩
      refine ⟨hbefore.1, fun u hu => ?_⟩
      obtain ⟨ctx'', hoccurs⟩ := hchild u (by rw [hsplit]; exact List.mem_append_left _ hu)
      exact h.complete_of_occurs hbounded hdoc hoccurs (htiled.fields u (hbefore.2 u hu))
    · rw [hnode] at hsplit
      simp at hsplit

end

/-! ## Fields -/

/-- Taking data leaves the cursor where it may be. -/
theorem Intake.within (hbounded : d.Bounded n I) (h : Intake d ctx c c') (hc : Within n I c) :
    Within n I c' := by
  have hstays : d.source.Stays I := hbounded.ends.stays
  refine hc.reaches ?_ (h.reaches hbounded hc)
  cases h with
  | nothing => exact hc.state
  | bytes h => exact (take_keeps hstays ..).ok hc.state h
  | bits _ h => exact (takeBits_keeps hstays ..).ok hc.state h
  | counted h₁ h₂ =>
      exact (take_keeps hstays ..).ok ((take_keeps hstays ..).ok hc.state h₁) h₂
  | terminated _ h => exact (takeTerminated_keeps hstays ..).ok hc.state h
  | script _ hrun haccept =>
      exact (acceptScript_keeps ..).ok
        ((runScript_keeps hbounded.scripts _).ok hc.state hrun) haccept

/-- The place of what is kept of an element that was to be read at a bit position. -/
structure Remnant (n start : Nat) (p : Value) : Prop where
  start_le : start ≤ p.bitStart
  begins : p.bitStart = start ∨ 0 < p.length
  told : p.BytesTold
  source : 0 < p.length → p.offset + p.length ≤ n

/-- What is kept of a field is a value of it without children. -/
theorem FieldFails.remnant (hbounded : d.Bounded n I) {i : Nat} {p : Value} (hc : Within n I c)
    (h : FieldFails d ctx i c f) (hp : f.salvage = some p) :
    f.path = [] ∧ p.element = i ∧ p.children = [] ∧ Remnant n c.pos p := by
  cases h with
  | bare hbare =>
      rw [hbare.salvage] at hp
      cases hp
  | @short c₁ c₂ count bytes htaken hal hfetch hf =>
      have hc₁ := htaken.within hbounded hc
      have hle := htaken.le
      rw [hf] at hp ⊢
      unfold shortfall at hp
      dsimp only at hp
      split at hp
      · cases hp
      · -- some bytes are there, and these are inside the source
        rename_i hsome
        cases hp
        have hin := (fetchChunks_yields hbounded.ends.yields _ hfetch hc₁.state
          (Or.inl rfl)).resolve_left hsome
        refine ⟨rfl, rfl, rfl, ?_, Or.inr (Nat.pos_of_ne_zero hsome), .of_whole rfl, fun _ => hin⟩
        change c.pos ≤ 8 * (c₁.pos / 8) + 0
        omega
  | @refused v c₁ hfield hpath hv =>
      cases hv.symm.trans hp
      have hspans := hfield.spans
      obtain ⟨payload, hvalue⟩ := hfield.value
      refine ⟨hpath, by rw [hvalue]; rfl, by rw [hvalue]; rfl, ?_⟩
      exact ⟨Nat.le_of_eq hspans.bitStart.symm, Or.inl hspans.bitStart, hspans.bytesTold,
        hc.inside_source (hfield.intake.reaches hbounded hc) hspans hspans.bytesTold
          ⟨Nat.le_refl _, Nat.le_refl _⟩⟩

/-! ## Structures -/

/-- A structure in a source of `n` bytes some fields of which have been read. -/
structure Partway (d : Decoder σ) (n : Nat) (I : σ → Prop) (outer : Context) (start : Nat)
    (p : Progress σ) : Prop where
  within : Within n I p.cursor
  holds : (p.context outer).Holds p.cursor
  reaches : Reaches n start p.cursor.pos
  /-- The fields lie next to each other, from the start to the cursor. -/
  tiles : Tiles start p.frame.values.toList p.cursor.pos
  fields : ∀ u ∈ p.frame.values.toList, Complete d n I u

namespace Partway

variable {i start : Nat} {p : Progress σ}

/-- No field has been read yet. -/
theorem opened (hc : Within n I c) (hholds : outer.Holds c) :
    Partway d n I outer c.pos { cursor := c } :=
  ⟨hc, hholds, Or.inl rfl, rfl, fun u hu => by cases hu⟩

/-- Fields that are read one after another stay that way. -/
theorem progresses (hbounded : d.Bounded n I) {levels : Nat} :
    Progresses d (d.readElement levels) outer i start (Partway d n I outer start) where
  settles := fun {last p p'} hp h => by
    refine ⟨?_, h.holds hp.holds, ?_, ?_, ?_⟩
    · rw [h.cursor]
      exact hp.within
    · rw [h.cursor]
      exact hp.reaches
    · rw [h.frame, h.cursor]
      exact hp.tiles
    · rw [h.frame]
      exact hp.fields
  push := fun {p child v c} hp hread => by
    have hspans := readElement_spans levels hread
    have hnext : (p.context outer).Holds c := readElement_holds levels hread hp.holds
    refine ⟨(hbounded.maintains_within ..).ok hp.within hread, hnext,
      hp.reaches.trans (hbounded.readElement_reaches levels hread hp.within), ?_, ?_⟩
    · rw [Progress.values_push]
      have htiles := hp.tiles.concat hspans.bitStart (by rw [hspans.bitStop]; exact hspans.le)
      rw [hspans.bitStop] at htiles
      exact htiles
    · intro u hu
      rw [Progress.values_push] at hu
      rcases List.mem_append.mp hu with hu | hu
      · exact hp.fields u hu
      · rw [List.mem_singleton.mp hu]
        refine ⟨levels, p.context outer, p.cursor, c, hp.within, hp.holds, ?_⟩
        rw [readElement_element hread]
        exact hread
  failed := fun {p child failure c} hp hread => by
    have hc : Within n I c := (hbounded.maintains_within ..).error hp.within hread
    exact ⟨⟨hc.state, hp.within.place⟩, hp.holds, hp.reaches, hp.tiles, hp.fields⟩

/-- The bytes of the fields lie between the first byte of the structure and the one in which the
cursor stands. -/
theorem bytes (h : Partway d n I outer start p) :
    ∀ u ∈ p.frame.values.toList, start / 8 ≤ u.offset ∧
      u.offset + u.length ≤ (p.cursor.pos + 7) / 8 := by
  intro u hu
  obtain ⟨hstart, hstop⟩ := h.tiles.ordered.2 u hu
  obtain ⟨levels, ctx, hread⟩ := h.fields u hu
  obtain ⟨hoffset, hbytes⟩ := hread.told .root
  omega

/-- A value with the fields that were read, which reaches at least as far as they do. -/
theorem wellPlaced_fields (h : Partway d n I outer start p) (hstart : start % 8 = 0)
    (hoffset : w.offset = start / 8) (hlength : (p.cursor.pos + 7) / 8 ≤ w.offset + w.length)
    (hsource : 0 < w.length → w.offset + w.length ≤ n)
    (hchildren : w.children = p.frame.values.toList) : WellPlaced d n I w where
  ordered := by
    rw [hchildren]
    exact h.tiles.ordered.1
  inside := fun u hu => by
    rw [hchildren] at hu
    have hbytes := h.bytes u hu
    omega
  tiled := fun before last hsplit => by
    have htiles := h.tiles
    rw [← hchildren, hsplit] at htiles
    refine ⟨⟨last.bitStart, ?_⟩, fun u hu => h.fields u ?_⟩
    · rw [show 8 * w.offset = start by omega]
      exact htiles.init
    · rw [← hchildren, hsplit]
      exact List.mem_append_left _ hu
  source := hsource

/-- The same with what is kept of one more field after them. -/
theorem wellPlaced_part {q : Value} (h : Partway d n I outer start p)
    (hq : Remnant n p.cursor.pos q) (hstart : start % 8 = 0)
    (hoffset : w.offset = start / 8) (hlength : (p.cursor.pos + 7) / 8 ≤ w.offset + w.length)
    (hpart : q.offset + q.length ≤ w.offset + w.length)
    (hsource : 0 < w.length → w.offset + w.length ≤ n)
    (hchildren : w.children = p.frame.values.toList ++ [q]) : WellPlaced d n I w where
  ordered := by
    rw [hchildren]
    refine List.pairwise_append.mpr ⟨h.tiles.ordered.1, List.pairwise_singleton _ _, ?_⟩
    intro u hu x hx
    rw [List.mem_singleton.mp hx]
    exact Nat.le_trans (h.tiles.ordered.2 u hu).2 hq.start_le
  inside := fun u hu => by
    rw [hchildren] at hu
    rcases List.mem_append.mp hu with hu | hu
    · have hbytes := h.bytes u hu
      omega
    · rw [List.mem_singleton.mp hu]
      have hle := h.tiles.le
      have hfirst := hq.start_le
      have htold := hq.told.1
      omega
  tiled := fun before last hsplit => by
    obtain ⟨hbefore, _⟩ := List.append_inj' (hsplit.symm.trans hchildren) rfl
    rw [hbefore, show 8 * w.offset = start by omega]
    exact ⟨⟨_, h.tiles⟩, h.fields⟩
  source := hsource

/-- A structure goes from its start to the byte in which its fields end. -/
theorem structureValue_bytes (h : Partway d n I outer start p) (hstart : start % 8 = 0)
    (label : Nat) (children : List Value) :
    (structureValue label start p.cursor.pos children).offset +
      (structureValue label start p.cursor.pos children).length = (p.cursor.pos + 7) / 8 := by
  have hle := h.tiles.le
  change start / 8 + (p.cursor.pos - start + 7) / 8 = _
  omega

/-- What is kept of a structure that fails between its fields. -/
theorem remnant (h : Partway d n I outer start p) (hstart : start % 8 = 0) (label : Nat)
    (children : List Value) :
    Remnant n start (structureValue label start p.cursor.pos children) := by
  have hbytes := h.structureValue_bytes hstart label children
  have hoffset : (structureValue label start p.cursor.pos children).offset = start / 8 := rfl
  have hfirst : (structureValue label start p.cursor.pos children).bitStart = start := by
    change 8 * (start / 8) + 0 = start
    omega
  refine ⟨Nat.le_of_eq hfirst.symm, Or.inl hfirst, .of_whole rfl, fun hlength => ?_⟩
  rcases h.reaches with hsame | hin
  · omega
  · omega

/-- With part of one more field it goes on to the end of that. -/
theorem part_bytes (h : Partway d n I outer start p) {q : Value}
    (hq : Remnant n p.cursor.pos q) (hstart : start % 8 = 0) (label : Nat) (children : List Value) :
    ((structureValue label start p.cursor.pos children).withPart q).offset +
        ((structureValue label start p.cursor.pos children).withPart q).length =
      max ((p.cursor.pos + 7) / 8) (q.offset + q.length) := by
  have hbytes := h.structureValue_bytes hstart label children
  have hoffset : (structureValue label start p.cursor.pos children).offset = start / 8 := rfl
  have hle := h.tiles.le
  have hfirst := hq.start_le
  have htold := hq.told.1
  unfold Value.withPart Value.stop
  dsimp only
  omega

theorem part_remnant (h : Partway d n I outer start p) {q : Value}
    (hq : Remnant n p.cursor.pos q) (hstart : start % 8 = 0) (label : Nat) (children : List Value) :
    Remnant n start ((structureValue label start p.cursor.pos children).withPart q) := by
  have hbytes := h.part_bytes hq hstart label children
  have hoffset : ((structureValue label start p.cursor.pos children).withPart q).offset =
      start / 8 := rfl
  have hfirst : ((structureValue label start p.cursor.pos children).withPart q).bitStart =
      start := by
    change 8 * (start / 8) + 0 = start
    omega
  refine ⟨Nat.le_of_eq hfirst.symm, Or.inl hfirst, .of_whole rfl, fun hlength => ?_⟩
  -- a part that covers nothing begins where the fields end
  have hbegins := hq.begins
  have htold := hq.told.1
  have hfirst := hq.start_le
  have hsource := hq.source
  rcases h.reaches with hsame | hin
  · omega
  · omega

end Partway

/-! ## The way to the failure -/

/-- In the structure that an element opens where it is read, the fields `before` are read, and then
the read of a child fails. -/
def ChildFails (d : Decoder σ) (levels : Nat) (ctx : Context) (i : Nat) (c : Cursor σ)
    (before : List Value) (ctx' : Context) (child : Nat) (c₁ : Cursor σ) (g : Failure) : Prop :=
  ∃ (s : Nat) (body : StructBody) (p : Progress σ) (c₂ : Cursor σ),
    d.document.structureOf? i = some (s, body) ∧
    d.readFields (d.readElement levels) ctx s c.pos body.elements { cursor := c } =
      .error g { p with cursor := c₂ } ∧
    p.frame.values.toList = before ∧ p.context ctx = ctx' ∧ p.cursor = c₁ ∧
    d.readElement levels ctx' child c₁ = .error g c₂

/-- `Kept d n I levels ctx i c f p`: the read of an element has failed with `f` and has kept `p`,
which is a value of that element. The failure tells the name of the element and then, if it comes
from a child, what the failure of the child tells. -/
inductive Kept (d : Decoder σ) (n : Nat) (I : σ → Prop) :
    Nat → Context → Nat → Cursor σ → Failure → Value → Prop where
  /-- The element has failed by itself, and the children so far are complete. -/
  | own {levels : Nat} {ctx : Context} {i : Nat} {c : Cursor σ} {f : Failure} {p : Value} :
      p.element = i → f.path = [(d.document.element i).name] →
      (∀ u ∈ p.children, Complete d n I u) →
      Kept d n I (levels + 1) ctx i c f p
  /-- A child has failed after the others, and nothing of it is kept. -/
  | bare {levels : Nat} {ctx ctx' : Context} {i child : Nat} {c c₁ : Cursor σ} {f g : Failure}
      {p : Value} :
      p.element = i → f.path = (d.document.element i).name :: g.path → f.cause = g.cause →
      ChildFails d levels ctx i c p.children ctx' child c₁ g → g.salvage = none →
      (∀ u ∈ p.children, Complete d n I u) → Kept d n I (levels + 1) ctx i c f p
  /-- A child has failed after the others, and what is kept of it is the last child. -/
  | part {levels : Nat} {ctx ctx' : Context} {i child : Nat} {c c₁ : Cursor σ} {f g : Failure}
      {p q : Value} {before : List Value} :
      p.element = i → f.path = (d.document.element i).name :: g.path → f.cause = g.cause →
      ChildFails d levels ctx i c before ctx' child c₁ g → g.salvage = some q →
      p.children = before ++ [q] → (∀ u ∈ before, Complete d n I u) →
      Kept d n I levels ctx' child c₁ g q → Kept d n I (levels + 1) ctx i c f p

/-- What is kept is a value of the element that was to be read. -/
theorem Kept.element {levels i : Nat} {p : Value} (h : Kept d n I levels ctx i c f p) :
    p.element = i := by
  cases h with
  | own helement => exact helement
  | bare helement => exact helement
  | part helement => exact helement

/-- What a failed read has kept stands in its place, and so does all of its tree. -/
structure Rescue (d : Decoder σ) (n : Nat) (I : σ → Prop) (levels : Nat) (ctx : Context) (i : Nat)
    (c : Cursor σ) (f : Failure) (p : Value) : Prop where
  place : Remnant n c.pos p
  nodes : ∀ w, p.Has w → WellPlaced d n I w
  kept : Kept d n I levels ctx i c f p

/-- A tree is its root and the trees of its children. -/
theorem has_cases {p : Value} (hroot : WellPlaced d n I p)
    (hchildren : ∀ u ∈ p.children, ∀ w, u.Has w → WellPlaced d n I w) :
    ∀ w, p.Has w → WellPlaced d n I w := by
  intro w hw
  cases hw with
  | self => exact hroot
  | child hu hw => exact hchildren _ hu _ hw

section

variable (hbounded : d.Bounded n I) (hdoc : d.document.Reserved)
include hbounded hdoc

/-- A structure that keeps its fields, all of which are complete. -/
theorem Partway.kept_fields {start : Nat} {p : Progress σ} (h : Partway d n I outer start p)
    (hstart : start % 8 = 0) (label : Nat) :
    ∀ w, (structureValue label start p.cursor.pos p.frame.values.toList).Has w →
      WellPlaced d n I w := by
  have hbytes := h.structureValue_bytes hstart label p.frame.values.toList
  have hsource := (h.remnant hstart label p.frame.values.toList).source
  refine has_cases (h.wellPlaced_fields hstart rfl (Nat.le_of_eq hbytes.symm) hsource
    rfl) fun u hu w hw => ?_
  obtain ⟨levels, ctx, hread⟩ := h.fields u hu
  exact hread.wellPlaced hbounded hdoc hw

/-- A structure that also keeps a part of one more field. -/
theorem Partway.kept_part {start : Nat} {p : Progress σ} {q : Value}
    (h : Partway d n I outer start p) (hq : Remnant n p.cursor.pos q)
    (hnodes : ∀ w, q.Has w → WellPlaced d n I w) (hstart : start % 8 = 0) (label : Nat) :
    ∀ w, ((structureValue label start p.cursor.pos p.frame.values.toList).withPart q).Has w →
      WellPlaced d n I w := by
  have hbytes := h.part_bytes hq hstart label p.frame.values.toList
  have hsource := (h.part_remnant hq hstart label p.frame.values.toList).source
  refine has_cases (h.wellPlaced_part hq hstart rfl ?_ ?_ hsource rfl) ?_
  · rw [hbytes]
    exact Nat.le_max_left ..
  · rw [hbytes]
    exact Nat.le_max_right ..
  · intro u hu w hw
    rcases List.mem_append.mp hu with hu | hu
    · obtain ⟨levels, ctx, hread⟩ := h.fields u hu
      exact hread.wellPlaced hbounded hdoc hw
    · rw [List.mem_singleton.mp hu] at hw
      exact hnodes w hw

/-- A structure that fails by itself keeps its fields. -/
theorem Partway.rescue {levels i : Nat} {p : Progress σ} (h : Partway d n I ctx c.pos p)
    (hstart : c.pos % 8 = 0) (hpath : f.path = [(d.document.element i).name]) :
    Rescue d n I (levels + 1) ctx i c f
      (structureValue i c.pos p.cursor.pos p.frame.values.toList) where
  place := h.remnant hstart ..
  nodes := h.kept_fields hbounded hdoc hstart i
  kept := .own rfl hpath h.fields

omit hdoc in
/-- A field keeps a value of its own without children. -/
theorem FieldFails.rescue {levels i : Nat} {p : Value} (h : FieldFails d ctx i c f)
    (hc : Within n I c) (hp : f.salvage = some p) :
    Rescue d n I (levels + 1) ctx i c (f.within (d.document.element i).name) p := by
  obtain ⟨hpath, helement, hnil, hremnant⟩ := h.remnant hbounded hc hp
  refine ⟨hremnant, ?_, .own helement ?_ ?_⟩
  · refine has_cases (.of_nil hnil hremnant.source) fun u hu => ?_
    rw [hnil] at hu
    cases hu
  · change (d.document.element i).name :: f.path = _
    rw [hpath]
  · rw [hnil]
    exact fun u hu => by cases hu

/-- A structure keeps its fields and what the one that fails has kept. -/
theorem readStructure_rescue {levels i s : Nat} {body : StructBody} {p : Value}
    (hread : ∀ {ctx : Context} {i : Nat} {c c' : Cursor σ} {f : Failure} {p : Value},
      d.readElement levels ctx i c = .error f c' → Within n I c → ctx.Holds c →
      f.salvage = some p → Rescue d n I levels ctx i c f p)
    (hs : d.document.structureOf? i = some (s, body))
    (h : d.readStructure (d.readElement levels) ctx i s body c = .error f c') (hc : Within n I c)
    (hholds : ctx.Holds c) (hp : f.salvage = some p) :
    Rescue d n I (levels + 1) ctx i c (f.within (d.document.element i).name) p := by
  have hopened : Partway d n I ctx c.pos { cursor := c } := .opened hc hholds
  have hprogresses : Progresses d (d.readElement levels) ctx s c.pos (Partway d n I ctx c.pos) :=
    Partway.progresses hbounded
  rcases readStructure_error hprogresses hopened h with hbare | ⟨hal, p₁, g, hf, hfails⟩
  · cases hbare.salvage.symm.trans hp
  rw [hf] at hp
  obtain ⟨hkeeps, hparts⟩ := inStructure_salvage hp
  rw [hkeeps] at hf
  subst hf
  have hown : g.Bare → Partway d n I ctx c.pos p₁ →
      Rescue d n I (levels + 1) ctx i c
        (Failure.within (d.document.element i).name { g with salvage := some p }) p := by
    intro hbare hp₁
    rcases hparts with ⟨_, rfl⟩ | ⟨q, hq, _⟩
    · refine hp₁.rescue hbounded hdoc hal ?_
      change (d.document.element i).name :: g.path = _
      rw [hbare.path]
    · cases hbare.salvage.symm.trans hq
  rcases hfails with ⟨hbare, hp₁⟩ | hfields
  · exact hown hbare hp₁
  cases readFields_error hprogresses hopened hfields with
  | own hbare hp₁ => exact hown hbare hp₁
  | @field p₀ child c₂ hp₀ hfailed hp₁ =>
      -- a failed read leaves the cursor at the end of the fields before
      subst hp₁
      have hpos : c₂.pos = p₀.cursor.pos := readElement_error_pos hfailed
      have hchild : ChildFails d levels ctx i c p₀.frame.values.toList (p₀.context ctx) child
        p₀.cursor g := ⟨s, body, p₀, c₂, hs, hfields, rfl, rfl, rfl, hfailed⟩
      dsimp only at hparts
      rw [hpos] at hparts
      rcases hparts with ⟨hg, rfl⟩ | ⟨q, hg, rfl⟩
      · exact ⟨hp₀.remnant hal .., hp₀.kept_fields hbounded hdoc hal i,
          .bare (g := g) rfl rfl rfl hchild hg hp₀.fields⟩
      · obtain ⟨hq, hnodes, hkept⟩ := hread hfailed hp₀.within hp₀.holds hg
        exact ⟨hp₀.part_remnant hq hal .., hp₀.kept_part hbounded hdoc hq hnodes hal i,
          .part (g := g) rfl rfl rfl hchild hg rfl hp₀.fields hkept⟩

/-- **What is kept of a failed read is well placed, and the failure tells the way to it.** -/
theorem readElement_rescue : ∀ (levels : Nat) {ctx : Context} {i : Nat} {c c' : Cursor σ}
    {f : Failure} {p : Value}, d.readElement levels ctx i c = .error f c' → Within n I c →
    ctx.Holds c → f.salvage = some p → Rescue d n I levels ctx i c f p
  | 0, ctx, i, c, c', f, p, h, _, _, hp => by
      cases h
      cases hp
  -- on the levels: what is kept of a child was kept with one level less
  | levels + 1, ctx, i, c, c', f, p, h, hc, hholds, hp => by
      unfold readElement at h
      split at h
      · cases h
      rename_i f₁ c₁ hbody
      cases h
      rcases readBody_error hbody with ⟨s, body, hs, hstructure⟩ | hfield
      · exact readStructure_rescue hbounded hdoc (readElement_rescue levels) hs hstructure hc
          hholds hp
      · exact hfield.rescue hbounded hc hp

end

/-- A step that fails and has kept something has failed to read an element. -/
theorem step_kept {s : Step} {p : Value} (h : d.step s c = .error f c') (hp : f.salvage = some p) :
    ∃ i, d.read i c = .error f c' := by
  cases s with
  | seek offset =>
      have hseek : Reader.Fails Failure.Bare (seek offset : Reader σ Unit) := by
        unfold seek
        split
        · exact .moveTo _
        · exact .fail (.of_cause _)
      rcases Reader.bind_error h with h | ⟨u, c₁, _, h⟩
      · cases (hseek.error h).salvage.symm.trans hp
      · cases h
  | decode =>
      rcases Reader.bind_error h with h | ⟨v, c₁, _, h⟩
      · rcases Machine.decode_cases d with ⟨i, hi⟩ | hnone
        · rw [hi] at h
          exact ⟨i, h⟩
        · rw [hnone] at h
          cases h
          cases hp
      · cases h
  | read i =>
      rcases Reader.bind_error h with h | ⟨v, c₁, _, h⟩
      · exact ⟨i, h⟩
      · cases h

/-- **Partial trees are well placed.** If a step of a session fails and has kept a tree, then
everywhere in the tree the children of a value lie in order inside it, all but the last are complete
and next to each other from its first bit on, and what covers bytes lies inside the source. The
failure tells the name of the root and, where it comes from a child, goes on with what the failure
of the child tells; the child is the last one if anything of it is kept, and the same holds of it in
turn. -/
theorem step_salvages {source : σ} {steps : List Step} {s : Step} {p : Value}
    (hdoc : d.document.Made) (hends : d.source.Ends n I) (hscripts : d.scripts = .empty)
    (hsource : I source)
    (h : d.step s (Machine.session d steps (.new source)).cursor = .error f c')
    (hp : f.salvage = some p) : (∀ w, p.Has w → WellPlaced d n I w) ∧
    Kept d n I depthLimit {} p.element (Machine.session d steps (.new source)).cursor f p := by
  have hbounded : d.Bounded n I := .of_empty hends hscripts
  have hc := hbounded.session_within hsource steps
  obtain ⟨i, hread⟩ := step_kept h hp
  obtain ⟨_, hnodes, hkept⟩ := readElement_rescue hbounded hdoc.reserved depthLimit hread hc
    (by intro l hl; cases hl) hp
  refine ⟨hnodes, ?_⟩
  rw [hkept.element]
  exact hkept

/-- A file of a byte and a box, and in the box a byte and a text after its length, over data that do
not tell their size. -/
def texts : Decoder Bytes where
  source := .unsized
  document := .ofParts "" { start := some { reference := .id 1, target := some 4 } }
    #[{ ident := { name := "n" }, body := .number { length := some (.constant 1) } },
      { ident := { name := "m" }, body := .number { length := some (.constant 1) } },
      { ident := { name := "s" }
        body := .string { type := some .pascal, length := some (.constant 1) } },
      { ident := { name := "box" }, body := .struct { elements := [1, 2] } },
      { ident := { id := 1, name := "file" }, body := .struct { elements := [0, 3] } }] #[]

/-- The tree that is kept where the text is cut off. -/
def cutOff : Value where
  element := 4
  offset := 0
  length := 4
  children :=
    [{ element := 0, offset := 0, length := 1, payload := .int 1 },
      { element := 3
        offset := 1
        length := 3
        children :=
          [{ element := 1, offset := 1, length := 1, payload := .int 2 },
            { element := 2, offset := 3, length := 1, payload := .bytes #[65] }] }]

/-- Of the text only the length and the first of five bytes are there. -/
theorem step_salvages_texts : ∃ f c',
    texts.step .decode (Machine.session texts [] (.new #[1, 2, 5, 65])).cursor = .error f c' ∧
    f.salvage = some cutOff ∧ f.path = ["file", "box", "s"] ∧
    (∀ w, cutOff.Has w → WellPlaced texts 4 (· = #[1, 2, 5, 65]) w) ∧
    Kept texts 4 (· = #[1, 2, 5, 65]) depthLimit {} 4
      (Machine.session texts [] (.new #[1, 2, 5, 65])).cursor f cutOff := by
  have hends : texts.source.Ends 4 (· = #[1, 2, 5, 65]) :=
    ByteSource.unsized_ends #[1, 2, 5, 65]
  have hfailure : Reader.failure? (texts.step .decode) { source := #[1, 2, 5, 65] } =
      some { cause := .endOfInput 3 5 1, path := ["file", "box", "s"]
             salvage := some cutOff } := by
    cbv
  obtain ⟨c', h⟩ : ∃ c', texts.step .decode
      (Machine.session texts [] (.new #[1, 2, 5, 65])).cursor = .error _ c' :=
    Reader.error_of_failure? hfailure
  obtain ⟨hplaced, hkept⟩ := step_salvages (.ofParts ..) hends rfl rfl h rfl
  exact ⟨_, c', h, rfl, rfl, hplaced, hkept⟩

end Decoder

end BinaryGrammar
