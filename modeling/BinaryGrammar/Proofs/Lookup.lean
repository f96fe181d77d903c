import BinaryGrammar.Proofs.Failing
import BinaryGrammar.Proofs.OwnLength
import BinaryGrammar.Proofs.References

/-!
# Looking fields up in frames and in trees

While a structure is read, its fields are looked up in a frame, which keeps the place of the latest
field with each name. Once the structure has been read, its fields are in a tree and are searched
from the last one on. Both ways lead to the same fields: in every state that reading comes through a
frame gives the last of its values with a name, and a path into a structure that has been read leads
where its rest led in the frame of that structure at its end. Padding has no name and is in the way
of none.

The main statement is `lookups_agree`.
-/

set_option autoImplicit false

namespace BinaryGrammar

/-! ## The last value with a name -/

/-- The last of some values whose element has a name. -/
def lastNamed (doc : Document) (name : String) (vs : List Value) : Option Value :=
  (vs.filter (Value.isNamed doc name)).getLast?

section

variable {doc : Document} {name : String} {vs : List Value}

theorem find?_reverse_eq_lastNamed :
    vs.reverse.find? (Value.isNamed doc name) = lastNamed doc name vs := by
  unfold lastNamed
  rw [← List.head?_filter, List.filter_reverse, List.head?_reverse]

theorem Value.child?_eq_lastNamed (v : Value) : v.child? doc name = lastNamed doc name v.children :=
  find?_reverse_eq_lastNamed

/-- Values that do not have a name are not found by it. -/
theorem lastNamed_append {more : List Value} (h : ∀ w ∈ more, (doc.element w.element).name ≠ name) :
    lastNamed doc name (vs ++ more) = lastNamed doc name vs := by
  rw [← find?_reverse_eq_lastNamed, ← find?_reverse_eq_lastNamed, find?_named_append h]

theorem lastNamed_eq_none (h : ∀ w ∈ vs, (doc.element w.element).name ≠ name) :
    lastNamed doc name vs = none := by
  rw [← find?_reverse_eq_lastNamed, find?_named_eq_none h]

theorem lastNamed_concat {v : Value} (h : (doc.element v.element).name = name) :
    lastNamed doc name (vs ++ [v]) = some v := by
  have hself : [v].filter (Value.isNamed doc name) = [v] :=
    List.filter_eq_self.mpr fun w hw => by
      rw [List.mem_singleton.mp hw]
      exact beq_iff_eq.mpr h
  unfold lastNamed
  rw [List.filter_append, hself, List.getLast?_concat]

/-- Where some value has a name, one is found by it. -/
theorem lastNamed_isSome {w : Value} (hw : w ∈ vs) (h : (doc.element w.element).name = name) :
    (lastNamed doc name vs).isSome := by
  have hmem : w ∈ vs.filter (Value.isNamed doc name) :=
    List.mem_filter.mpr ⟨hw, beq_iff_eq.mpr h⟩
  exact List.getLast?_isSome.mpr (List.ne_nil_of_mem hmem)

end

/-- In every document padding has no name. -/
theorem Document.Made.padding_name {doc : Document} (h : doc.Made) :
    (doc.element doc.padding).name = "" := by
  induction h with
  | ofParts version grammar elements scripts =>
      rw [ofParts_padding]
      rfl
  | withGrammar grammar _ ih => exact ih
  | @update doc _ ih =>
      have hlabel := (update_keeps doc doc.padding).1
      rw [(update_shape doc).padding]
      exact (congrArg Label.name hlabel).trans ih

/-- A frame is what pushing its values one after another gives. -/
def Frame.Told (doc : Document) (frame : Frame) : Prop := frame = .ofValues doc frame.values.toList

namespace Frame.Told

variable {doc : Document} {frame : Frame}

theorem push (h : frame.Told doc) (v : Value) :
    (frame.push (doc.element v.element).name v).Told doc := by
  unfold Told
  rw [values_push, Array.toList_push, ofValues, pushAll_concat]
  exact congrArg (Frame.push · _ v) h

/-- **A name leads to the last value of the frame that has it.** -/
theorem get?_eq (h : frame.Told doc) {name : String} (hname : name ≠ "") :
    frame.get? name = lastNamed doc name frame.values.toList := by
  rw [← find?_reverse_eq_lastNamed, ← get?_ofValues hname]
  exact congrArg (Frame.get? · name) h

end Frame.Told

/-! ## States -/

namespace Decoder

variable {σ : Type} {d : Decoder σ} {levels i start : Nat} {outer : Context} {p : Progress σ}

/-- The states that reading comes through. With so many levels left for its fields, the structure of
a number is read in given surroundings from a bit position on, and has come so far. -/
inductive Comes (d : Decoder σ) : Nat → Context → Nat → Nat → Progress σ → Prop where
  /-- A structure is opened that no other one is around. -/
  | outermost {levels label i : Nat} {body : StructBody} {c : Cursor σ} :
      levels + 1 = depthLimit → d.document.structureOf? label = some (i, body) →
      Comes d levels {} i c.pos { cursor := c }
  /-- A structure is opened as a field of another one. -/
  | inner {levels label i start j : Nat} {outer : Context} {body : StructBody} {p : Progress σ} :
      Comes d (levels + 1) outer i start p → d.document.structureOf? label = some (j, body) →
      Comes d levels (p.context outer) j p.cursor.pos { cursor := p.cursor }
  /-- The end of the structure is settled, or cannot be settled yet. -/
  | settled {levels i start : Nat} {outer : Context} {last : Bool} {p p' : Progress σ} :
      Comes d levels outer i start p → Settles d outer i start last p p' →
      Comes d levels outer i start p'
  /-- An instance of an element has been read. -/
  | pushed {levels i start child : Nat} {outer : Context} {p : Progress σ} {v : Value}
      {c : Cursor σ} :
      Comes d levels outer i start p →
      d.readElement levels (p.context outer) child p.cursor = .ok v c →
      Comes d levels outer i start (Progress.push { p with cursor := c } d.document v)
  /-- An attempt to read an instance has failed, and the cursor goes back. -/
  | failed {levels i start child : Nat} {outer : Context} {p : Progress σ} {failure : Failure}
      {c : Cursor σ} :
      Comes d levels outer i start p →
      d.readElement levels (p.context outer) child p.cursor = .error failure c →
      Comes d levels outer i start { p with cursor := { c with pos := p.cursor.pos } }

namespace Comes

/-- What comes next is come through. -/
theorem progresses : Progresses d (d.readElement levels) outer i start
    (Comes d levels outer i start) :=
  ⟨.settled, .pushed, .failed⟩

/-- Reading the fields of a structure ends in such a state. -/
theorem readFields_ok {children : List Nat} {p' : Progress σ} {u : Unit}
    (h : Comes d levels outer i start p)
    (hread : d.readFields (d.readElement levels) outer i start children p = .ok u p') :
    Comes d levels outer i start p' :=
  progresses.readFields h hread

end Comes

/-! ## Frames -/

/-- All frames of a state are what pushing their values has made of them. -/
theorem Comes.told (h : Comes d levels outer i start p) :
    ∀ frame ∈ (p.context outer).frames, frame.Told d.document := by
  induction h with
  | outermost _ _ =>
      intro frame hframe
      rw [List.mem_singleton.mp hframe]
      rfl
  | inner _ _ ih =>
      intro frame hframe
      rcases List.mem_cons.mp hframe with rfl | hframe
      · rfl
      · exact ih frame hframe
  | settled _ hsettles ih =>
      intro frame hframe
      refine ih frame ?_
      rcases List.mem_cons.mp hframe with rfl | hframe
      · rw [hsettles.frame]
        exact List.mem_cons_self
      · exact List.mem_cons_of_mem _ hframe
  | pushed _ _ ih =>
      intro frame hframe
      rcases List.mem_cons.mp hframe with rfl | hframe
      · exact (ih _ List.mem_cons_self).push _
      · exact ih frame (List.mem_cons_of_mem _ hframe)
  | failed _ _ ih => exact ih

/-! ## Structures that have been read -/

theorem finish_padding {extent : Extent} {c c' : Cursor σ} {padding : List Value}
    (h : d.finish outer extent c = .ok padding c') :
    ∀ w ∈ padding, w.element = d.document.padding := by
  intro w hw
  by_cases hfixed : ∃ stop, extent = .fixed stop
  · obtain ⟨stop, rfl⟩ := hfixed
    obtain ⟨_, hpadding, _⟩ := finish_fixed_ok h
    rw [hpadding] at hw
    unfold paddingBetween at hw
    dsimp only at hw
    split at hw
    · rw [List.mem_singleton.mp hw]
    · cases hw
  · obtain ⟨_, hpadding, _⟩ := finish_open_ok (fun stop he => hfixed ⟨stop, he⟩) h
    rw [hpadding] at hw
    cases hw

/-- A structure that has been read has the fields of its frame, and then padding. -/
theorem readElement_fields {n label j : Nat} {body : StructBody} {ctx : Context} {c c' : Cursor σ}
    {v : Value} (hs : d.document.structureOf? label = some (j, body))
    (h : d.readElement (n + 1) ctx label c = .ok v c') :
    ∃ last padding,
      d.readFields (d.readElement n) ctx j c.pos body.elements { cursor := c } = .ok () last ∧
      v.children = last.frame.values.toList ++ padding ∧
      ∀ w ∈ padding, w.element = d.document.padding := by
  obtain ⟨m, hm, hbody⟩ := readElement_ok h
  cases hm
  rcases readBody_ok hbody with ⟨j', body', hs', hread⟩ | ⟨hnone, _⟩
  · cases hs.symm.trans hs'
    obtain ⟨_, _, last, padding, hfields, hfinish, hv⟩ := readStructure_ends hread
    exact ⟨last, padding, hfields, by rw [hv]; rfl, finish_padding hfinish⟩
  · rw [hs] at hnone
    cases hnone

/-- A value whose fields are those of a frame with padding after them has a field by a name exactly
if the frame has. -/
theorem child?_eq_get? (hdoc : d.document.Made) {frame : Frame} (hframe : frame.Told d.document)
    {v : Value} {padding : List Value} (hv : v.children = frame.values.toList ++ padding)
    (hpadding : ∀ w ∈ padding, w.element = d.document.padding) {name : String}
    (hname : name ≠ "") : v.child? d.document name = frame.get? name := by
  have hnone : ∀ w ∈ padding, (d.document.element w.element).name ≠ name := by
    intro w hw hwname
    rw [hpadding w hw, hdoc.padding_name] at hwname
    exact hname hwname.symm
  rw [Value.child?_eq_lastNamed, hv, lastNamed_append hnone, hframe.get?_eq hname]

/-- A field of an inner frame hides those of the same name around it. -/
theorem find?_shadows {ctx : Context} (htold : ∀ frame ∈ ctx.frames, frame.Told d.document)
    {before after : List Frame} {frame : Frame} (hframes : ctx.frames = before ++ frame :: after)
    {name : String} (hname : name ≠ "")
    (hbefore : ∀ inner ∈ before, ∀ w ∈ inner.values.toList,
      (d.document.element w.element).name ≠ name)
    {w : Value} (hw : w ∈ frame.values.toList)
    (hwname : (d.document.element w.element).name = name) :
    ctx.find? name = lastNamed d.document name frame.values.toList := by
  have hnone : before.findSome? (·.get? name) = none := by
    refine List.findSome?_eq_none_iff.mpr fun inner hinner => ?_
    have hmem : inner ∈ ctx.frames := by
      rw [hframes]
      exact List.mem_append_left _ hinner
    rw [(htold inner hmem).get?_eq hname, lastNamed_eq_none (hbefore inner hinner)]
  have hmem : frame ∈ ctx.frames := by
    rw [hframes]
    exact List.mem_append_right _ List.mem_cons_self
  obtain ⟨u, hu⟩ := Option.isSome_iff_exists.mp (lastNamed_isSome hw hwname)
  unfold Context.find?
  rw [hframes, List.findSome?_append, hnone, Option.none_or, List.findSome?_cons,
    (htold frame hmem).get?_eq hname, hu]

/-- A path into a value leads where its rest leads in surroundings whose innermost frame has the
same fields. -/
theorem follow?_into {doc : Document} {ctx inner : Context} {a name : String} {v : Value}
    (ha : ctx.find? a = some v) (hsame : v.child? doc name = inner.find? name)
    (rest : List String) :
    ctx.follow? doc (a :: name :: rest) = inner.follow? doc (name :: rest) := by
  unfold Context.follow?
  dsimp only
  rw [List.foldl_cons, ha, Option.bind_some, hsame]

/-- **Looking up in frames and in trees agrees**, in every state that reading comes through. A name
leads to the last value of a frame that has it, and fields of inner frames hide those around them. A
structure that is read next ends in a state of its own. It is found by its name then, and wherever a
name leads to it, paths into it lead where their rests led in that state. -/
theorem lookups_agree (hdoc : d.document.Made) (h : Comes d levels outer i start p) :
    (∀ frame ∈ (p.context outer).frames, ∀ name, name ≠ "" →
      frame.get? name = lastNamed d.document name frame.values.toList) ∧
    (∀ before frame after, (p.context outer).frames = before ++ frame :: after →
      ∀ name, name ≠ "" →
        (∀ inner ∈ before, ∀ w ∈ inner.values.toList,
          (d.document.element w.element).name ≠ name) →
        (∃ w ∈ frame.values.toList, (d.document.element w.element).name = name) →
        (p.context outer).find? name = lastNamed d.document name frame.values.toList) ∧
    ∀ child j body v c, d.document.structureOf? child = some (j, body) →
      d.readElement levels (p.context outer) child p.cursor = .ok v c →
      ∃ n last padding, levels = n + 1 ∧ Comes d n (p.context outer) j p.cursor.pos last ∧
        d.readFields (d.readElement n) (p.context outer) j p.cursor.pos body.elements
          { cursor := p.cursor } = .ok () last ∧
        v.children = last.frame.values.toList ++ padding ∧
        (∀ w ∈ padding, w.element = d.document.padding) ∧
        ((d.document.element child).name ≠ "" →
          ((Progress.push { p with cursor := c } d.document v).context outer).find?
            (d.document.element child).name = some v) ∧
        ∀ (ctx : Context) (a : String), ctx.find? a = some v → ∀ name rest, name ≠ "" →
          (∃ w ∈ last.frame.values.toList, (d.document.element w.element).name = name) →
          ctx.follow? d.document (a :: name :: rest) =
            (last.context (p.context outer)).follow? d.document (name :: rest) ∧
          ctx.scope d.document (a :: name :: rest) =
            (last.context (p.context outer)).scope d.document (name :: rest) := by
  have htold := h.told
  refine ⟨fun frame hframe name hname => (htold frame hframe).get?_eq hname, ?_, ?_⟩
  · rintro before frame after hframes name hname hbefore ⟨w, hw, hwname⟩
    exact find?_shadows htold hframes hname hbefore hw hwname
  · intro child j body v c hs hread
    obtain ⟨n, hn, _⟩ := readElement_ok hread
    subst hn
    obtain ⟨last, padding, hfields, hchildren, hpadding⟩ := readElement_fields hs hread
    have hlast : Comes d n (p.context outer) j p.cursor.pos last :=
      (h.inner hs).readFields_ok hfields
    have hframe : last.frame.Told d.document := hlast.told _ List.mem_cons_self
    refine ⟨n, last, padding, rfl, hlast, hfields, hchildren, hpadding, fun hname => ?_, ?_⟩
    · -- the value is the last one of the frame
      have hpushed := (h.pushed hread).told _ List.mem_cons_self
      have helement : (d.document.element v.element).name = (d.document.element child).name := by
        rw [readElement_element hread]
      have hvalues : (Progress.push { p with cursor := c } d.document v).frame.values.toList =
          p.frame.values.toList ++ [v] := by
        unfold Progress.push
        rw [Frame.values_push, Array.toList_push]
      unfold Context.find? Progress.context
      rw [List.findSome?_cons, hpushed.get?_eq hname, hvalues, lastNamed_concat helement]
    · rintro ctx a hctx name rest hname ⟨w, hw, hwname⟩
      obtain ⟨u, hu⟩ := Option.isSome_iff_exists.mp (lastNamed_isSome hw hwname)
      have hsame : v.child? d.document name = (last.context (p.context outer)).find? name := by
        rw [child?_eq_get? hdoc hframe hchildren hpadding hname]
        unfold Context.find? Progress.context
        rw [List.findSome?_cons, hframe.get?_eq hname, hu]
      have hfollow := follow?_into hctx hsame rest
      exact ⟨hfollow, congrArg (·.bind Value.int?) hfollow⟩

end Decoder

/-! ## A box with padding -/

/-- The grammar of a file with a box of two bytes, of which a number takes the first. -/
def Document.boxed : Document :=
  .ofParts "" { start := some { reference := .id 1, target := some 2 } }
    #[{ ident := { name := "n" }, body := .number { length := some (.constant 1) } },
      { ident := { name := "a" },
        body := .struct { length := some (.constant 2), elements := [0] } },
      { ident := { name := "file" }, body := .struct { elements := [1] } }] #[]

namespace Decoder

/-- A decoder of the file in memory. -/
def boxed : Decoder Bytes := { document := .boxed, source := .plain }

/-- After the box, the number in it is where it was in the box. -/
theorem lookups_agree_boxed : ∃ v c n, ∃ last : Progress Bytes, boxed.readElement (n + 1)
      (Progress.context { cursor := { source := #[7, 0] } } {}) 1 { source := #[7, 0] } =
        .ok v c ∧ v.children.length = 2 ∧
    ((Progress.push { cursor := c } boxed.document v).context {}).follow? boxed.document
        ["a", "n"] =
      (last.context (Progress.context { cursor := { source := #[7, 0] } } {})).follow?
        boxed.document ["n"] := by
  have hread : boxed.readElement 127
      (Progress.context { cursor := { source := #[7, 0] } } {}) 1 { source := #[7, 0] } = .ok
      { element := 1, offset := 0, length := 2,
        children :=
          [{ element := 0, offset := 0, length := 1, payload := .int 7 },
            { element := 3, offset := 1, length := 1 }] }
      { pos := 16, source := #[7, 0] } := by cbv
  have hcomes : Comes boxed 127 {} 2 0 { cursor := { source := #[7, 0] } } :=
    @Comes.outermost _ boxed 127 2 2 _ { source := #[7, 0] } rfl rfl
  obtain ⟨n, last, padding, hn, _, _, hchildren, hpadding, hfound, hinto⟩ :=
    (lookups_agree (.ofParts ..) hcomes).2.2 1 1 _ _ _ rfl hread
  -- the number is in the frame, for it is no padding
  have hnumber : ∃ w ∈ last.frame.values.toList,
      (boxed.document.element w.element).name = "n" := by
    have hmem : ({ element := 0, offset := 0, length := 1, payload := .int 7 } : Value) ∈
        last.frame.values.toList ++ padding := by
      rw [← hchildren]
      exact List.mem_cons_self
    rcases List.mem_append.mp hmem with hmem | hmem
    · exact ⟨_, hmem, rfl⟩
    · exact absurd (hpadding _ hmem) (by decide)
  cases hn
  exact ⟨_, _, _, last, hread, rfl, (hinto _ "a" (hfound (by decide)) "n" [] (by decide) hnumber).1⟩

end Decoder

end BinaryGrammar
