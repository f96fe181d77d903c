import BinaryGrammar.Proofs.Element
import BinaryGrammar.Proofs.Extent

/-!
# Every value of a tree has been read

A decoded tree holds no values but those that a read has given, and padding. Each of them was read
in surroundings that can be told from the tree: the frames are those of the values around it, each
with the fields that come before, and the limit is the end of the innermost of them whose end is
known from these fields. So what holds of the root of every tree that is read holds of every value
in it, in the surroundings where the value stands.
-/

set_option autoImplicit false

namespace BinaryGrammar

/-- The surroundings of a field of a value, given those of the value and the fields before. -/
def Decoder.inside {σ : Type} (d : Decoder σ) (ctx : Context) (v : Value) (before : List Value) :
    Context :=
  ctx.enter (.ofValues d.document before)
    (match d.document.structureOf? v.element with
    | some (i, _) => d.extentAfter ctx i (8 * v.offset) before
    | none => .pending)

/-- `Occurs d ctx v ctx' w`: in the tree of `v`, which stands in the surroundings `ctx`, the value
`w` stands in the surroundings `ctx'`. -/
inductive Occurs {σ : Type} (d : Decoder σ) : Context → Value → Context → Value → Prop where
  | root {ctx : Context} {v : Value} : Occurs d ctx v ctx v
  | field {ctx ctx' : Context} {v u w : Value} {before after : List Value} :
      v.children = before ++ u :: after → Occurs d (d.inside ctx v before) u ctx' w →
      Occurs d ctx v ctx' w

theorem Occurs.of_children_nil {σ : Type} {d : Decoder σ} {ctx ctx' : Context} {v w : Value}
    (hv : v.children = []) (h : Occurs d ctx v ctx' w) : w = v ∧ ctx' = ctx := by
  cases h with
  | root => exact ⟨rfl, rfl⟩
  | field hchildren _ => rw [hv] at hchildren; exact absurd hchildren (by simp)

theorem Occurs.trans {σ : Type} {d : Decoder σ} {ctx ctx' ctx'' : Context} {v u w : Value}
    (h : Occurs d ctx v ctx' u) : Occurs d ctx' u ctx'' w → Occurs d ctx v ctx'' w := by
  induction h with
  | root => exact id
  | field hchildren _ ih => exact fun hw => .field hchildren (ih hw)

namespace Decoder

variable {σ : Type}

/-- A property of the cursor that every read keeps, whether it succeeds or not. -/
def Maintains (d : Decoder σ) (J : Cursor σ → Prop) : Prop :=
  ∀ (levels : Nat) (ctx : Context) (i : Nat), Reader.Keeps J (d.readElement levels ctx i)

theorem maintains_true (d : Decoder σ) : d.Maintains fun _ => True :=
  fun _ _ _ => ⟨fun _ _ => trivial, fun _ _ => trivial⟩

/-- A value has been read in the given surroundings. -/
def ReadIn (d : Decoder σ) (levels : Nat) (J : Cursor σ → Prop) (ctx : Context) (v : Value) :
    Prop :=
  ∃ c c' : Cursor σ, J c ∧ ctx.Holds c ∧ d.readElement levels ctx v.element c = .ok v c'

variable {d : Decoder σ} {levels : Nat} {J : Cursor σ → Prop} {outer ctx : Context}
  {c c' : Cursor σ} {v : Value}

/-- The progress of a structure whose fields have all been read, each in the surroundings that the
fields before it make up. -/
structure Sound (d : Decoder σ) (levels : Nat) (J : Cursor σ → Prop) (outer : Context)
    (i start : Nat) (p : Progress σ) : Prop where
  tracked : Tracked d outer i start p
  fields : ∀ {before after : List Value} {u : Value},
    p.frame.values.toList = before ++ u :: after →
    ReadIn d levels J
      (outer.enter (.ofValues d.document before) (d.extentAfter outer i start before)) u
  cursor : J p.cursor
  holds : (p.context outer).Holds p.cursor

namespace Sound

variable {i start : Nat} {p p' : Progress σ}

theorem opened (hJ : J c) (hholds : outer.Holds c)
    (h : Settles d outer i start false { cursor := c } p) : Sound d levels J outer i start p where
  tracked := .opened h
  fields := fun he => absurd he (by rw [h.frame]; simp)
  cursor := by rw [h.cursor]; exact hJ
  holds := h.holds hholds

theorem settles {last : Bool} (hp : Sound d levels J outer i start p)
    (h : Settles d outer i start last p p') : Sound d levels J outer i start p' where
  tracked := hp.tracked.settles h
  fields := by rw [h.frame]; exact hp.fields
  cursor := by rw [h.cursor]; exact hp.cursor
  holds := h.holds hp.holds

/-- One more field. -/
theorem push (hJ : d.Maintains J) {child : Nat} (hp : Sound d levels J outer i start p)
    (hread : d.readElement levels (p.context outer) child p.cursor = .ok v c)
    (h : Settles d outer i start false (Progress.push { p with cursor := c } d.document v) p') :
    Sound d levels J outer i start p' where
  tracked := hp.tracked.push h
  fields := by
    intro before after u he
    rw [h.frame, Progress.values_push] at he
    rcases List.eq_nil_or_concat after with hafter | ⟨after', w, hafter⟩
    · -- the new field itself
      subst hafter
      obtain ⟨hbefore, hu⟩ := List.append_inj' he rfl
      injection hu with hu
      subst hu
      have hcontext : p.context outer =
          outer.enter (.ofValues d.document before) (d.extentAfter outer i start before) := by
        rw [Progress.context_eq, hp.tracked.frame, hp.tracked.extent, hbefore]
      rw [← hcontext]
      refine ⟨p.cursor, c, hp.cursor, hp.holds, ?_⟩
      rw [readElement_element hread]
      exact hread
    · subst hafter
      rw [List.concat_eq_append, ← List.cons_append, ← List.append_assoc] at he
      exact hp.fields (List.append_inj' he rfl).1
  cursor := by
    rw [h.cursor]
    exact (hJ _ _ _).ok hp.cursor hread
  holds := by
    have hnext : (p.context outer).Holds c := readElement_holds levels hread hp.holds
    exact h.holds hnext

/-- A failed attempt to read a field. -/
theorem failed (hJ : d.Maintains J) {child : Nat} {failure : Failure}
    (hp : Sound d levels J outer i start p)
    (hread : d.readElement levels (p.context outer) child p.cursor = .error failure c) :
    Sound d levels J outer i start { p with cursor := { c with pos := p.cursor.pos } } := by
  have hc : ({ c with pos := p.cursor.pos } : Cursor σ) = c := by
    rw [← readElement_error_pos hread]
  exact ⟨hp.tracked.moved, hp.fields, by rw [hc]; exact (hJ _ _ _).error hp.cursor hread, hp.holds⟩

end Sound

variable {read : ElementReader σ} {label i : Nat} {children : List Nat} {p₀ p₁ p₂ : Progress σ}
  {ts : List (Turn σ)} {padding : List Value}

/-- All fields of a structure have been read, each in the surroundings that the fields before it
make up. -/
theorem StructureRead.sound (hJ : d.Maintains J)
    (h : StructureRead d (d.readElement levels) outer label i children c v c' p₀ p₁ p₂ ts padding)
    (hc : J c) (hholds : outer.Holds c) : Sound d levels J outer i c.pos p₂ := by
  refine Sound.settles (h.turns.invariant (P := Sound d levels J outer i c.pos) ?_ ?_
    (.opened hc hholds h.opened)) h.closed
  · intro p p' child w c₁ hp _ hread hsettle
    exact hp.push hJ hread hsettle
  · intro p child failure c₁ hp hread
    exact hp.failed hJ hread

/-- The value of a structure tells where it starts. -/
theorem StructureRead.start
    (h : StructureRead d read outer label i children c v c' p₀ p₁ p₂ ts padding) :
    8 * v.offset = c.pos := by
  have hal := h.aligned
  rw [h.value]
  change 8 * (c.pos / 8) = c.pos
  omega

/-- The surroundings of the fields of a structure, as told from its value. -/
theorem StructureRead.inside {body : StructBody}
    (h : StructureRead d read outer label i children c v c' p₀ p₁ p₂ ts padding)
    (hs : d.document.structureOf? label = some (i, body)) (before : List Value) :
    d.inside outer v before =
      outer.enter (.ofValues d.document before) (d.extentAfter outer i c.pos before) := by
  have helement : v.element = label := by
    rw [h.value]
    rfl
  unfold Decoder.inside
  rw [helement, hs, h.start]

/-! ## Padding -/

/-- The value of padding: nothing is inside it, and it covers whole bytes, at least one. -/
structure IsPadding (doc : Document) (w : Value) : Prop where
  element : w.element = doc.padding
  children : w.children = []
  bits : w.bits = none
  length : 0 < w.length

theorem mem_paddingBetween {pos stop : Nat} {w : Value} (hstop : stop % 8 = 0)
    (h : w ∈ d.paddingBetween pos stop) : IsPadding d.document w := by
  unfold paddingBetween at h
  dsimp only at h
  split at h
  · rename_i hgap
    rw [List.mem_singleton] at h
    subst h
    refine ⟨rfl, rfl, rfl, ?_⟩
    unfold Word.alignUp at hgap ⊢
    dsimp only
    omega
  · cases h

theorem StructureRead.isPadding {w : Value}
    (h : StructureRead d read outer label i children c v c' p₀ p₁ p₂ ts padding)
    (hw : w ∈ padding) : IsPadding d.document w := by
  rcases h.ending with ⟨stop, c₁, u, hext, _, hpad, _, _⟩ | ⟨_, _, hpad, _⟩
  · rw [hpad] at hw
    exact mem_paddingBetween (h.stop_aligned hext) hw
  · rw [hpad] at hw
    cases hw

/-! ## Every value has been read -/

/-- A field of a structure is one of those that were read, or it is the padding after them. -/
theorem field_cases {vs padding before after : List Value} {u : Value}
    (h : vs ++ padding = before ++ u :: after) :
    u ∈ padding ∨ ∃ rest, vs = before ++ u :: rest := by
  rcases List.append_eq_append_iff.mp h with ⟨as, _, hpad⟩ | ⟨bs, hvs, hrest⟩
  · left
    rw [hpad]
    exact List.mem_append_right _ List.mem_cons_self
  · cases bs with
    | nil =>
        left
        rw [List.nil_append] at hrest
        rw [← hrest]
        exact List.mem_cons_self
    | cons b bs =>
        right
        rw [List.cons_append] at hrest
        injection hrest with hb _
        exact ⟨bs, by rw [hvs, hb]⟩

/-- **Every value of a decoded tree has been read in the surroundings where it stands, or is
padding.** -/
theorem occurs_read (hJ : d.Maintains J) : ∀ (levels : Nat) {ctx ctx' : Context} {i : Nat}
    {c c' : Cursor σ} {v w : Value}, d.readElement levels ctx i c = .ok v c' → J c → ctx.Holds c →
    Occurs d ctx v ctx' w → IsPadding d.document w ∨ ∃ levels', ReadIn d levels' J ctx' w
  | 0, ctx, ctx', i, c, c', v, w, h, _, _, _ => by cases h
  -- on the levels: what is inside a structure was read with one level less
  | levels + 1, ctx, ctx', i, c, c', v, w, h, hc, hholds, hw => by
      cases hw with
      | root =>
          refine Or.inr ⟨levels + 1, c, c', hc, hholds, ?_⟩
          rw [readElement_element h]
          exact h
      | @field _ _ _ u _ before after hchildren hw =>
          rcases readElement_cases h with
            ⟨n, s, body, p₀, p₁, p₂, ts, padding, hn, hs, hread⟩ | ⟨_, hfield⟩
          · injection hn with hn
            subst hn
            have hsound := hread.sound hJ hc hholds
            rw [hread.inside hs] at hw
            rw [hread.children_eq] at hchildren
            rcases field_cases hchildren with hpad | ⟨rest, hvalues⟩
            · -- nothing is inside padding, so the value is the padding itself
              have hu := hread.isPadding hpad
              obtain ⟨hwu, _⟩ := Occurs.of_children_nil hu.children hw
              rw [hwu]
              exact Or.inl hu
            · obtain ⟨c₁, c₂, hJ₁, hholds₁, hread₁⟩ := hsound.fields hvalues
              exact occurs_read hJ levels hread₁ hJ₁ hholds₁ hw
          · obtain ⟨payload, hv⟩ := hfield.value
            rw [hv] at hchildren
            exact absurd hchildren (by simp [Value.leaf])

end Decoder

/-! ## A small grammar

The statements about all grammars are tried on this one: a box of three bytes, in which there are a
box of one byte and a disabled reference. No field describes the bytes. -/

/-- The grammar of a box in a box. -/
def Document.boxes : Document :=
  .ofParts "" { start := some { reference := .id 1, target := some 2 } }
    #[{ body := .struct { length := some (.constant 1) } },
      { body := .structRef { disabled := some true } },
      { body := .struct { length := some (.constant 3), elements := [0, 1] } }] #[]

/-- A decoder of boxes in memory. -/
def Decoder.boxes : Decoder Bytes := { document := .boxes, source := .plain }

end BinaryGrammar
