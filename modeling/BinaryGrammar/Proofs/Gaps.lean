import BinaryGrammar.Proofs.Phases

/-!
# Loading fills gaps only

The attributes of an element are seen as slots, some of which have a datum in them. Loading a
document leaves the data that are there as they are. Where a slot is empty it may put a datum, and
takes it from the same slot of an element of the same kind. The one exception is a reference to a
grammar that names no grammar and is found by its type identifier: it gets the name of the grammar.

The main statement is `load_fills_gaps`: it holds of every record, whatever is reported about it.
-/

set_option autoImplicit false

namespace BinaryGrammar

/-- The attributes that an element of some kind can have, apart from its id, its name, its children
and the link to its base. -/
inductive Slot where
  | description
  | repeatMin
  | repeatMax
  | fillColour
  | strokeColour
  | length
  | lengthUnit
  | lengthOffset
  | endian
  | signed
  | encoding
  | order
  | display
  | type
  | mustMatch
  | values
  | masks
  | delimiter
  | relativeTo
  | references
  | referencedSize
  | followNullReference
  | additional
  | disabled
  | target
  | uti
  | filename
  | grammar
  | script
  deriving DecidableEq, Repr

/-- What can be in a slot. Of a link it is the reference, whether it has been found or not. -/
inductive Datum where
  | text (value : String)
  | expression (value : Expression)
  | colour (value : Colour)
  | lengthUnit (value : LengthUnit)
  | endian (value : Endian)
  | flag (value : Bool)
  | order (value : Order)
  | display (value : Display)
  | numberType (value : NumberType)
  | stringType (value : StringType)
  | byte (value : UInt8)
  | numbers (values : List (FixedValue NumberLiteral))
  | strings (values : List (FixedValue String))
  | binaries (values : List (FixedValue Bytes))
  | masks (values : List Mask)
  | reference (value : Reference)
  | script (number : Nat)
  deriving DecidableEq, Repr

namespace Datum

variable {α : Type}

/-- A list that is not empty. -/
def ofList? (f : List α → Datum) (values : List α) : Option Datum :=
  if values.isEmpty then none else some (f values)

/-- The reference of a link. -/
def ofLink? (link : Option (Link α)) : Option Datum := link.map fun l => .reference l.reference

/-- A text that is not empty. -/
def ofText? (s : String) : Option Datum := if s.isEmpty then none else some (.text s)

end Datum

/-! ## Data of elements -/

/-- What is in a slot of a structure. -/
def StructBody.datum? (b : StructBody) : Slot → Option Datum
  | .length => b.length.map .expression
  | .lengthUnit => b.lengthUnit.map .lengthUnit
  | .lengthOffset => b.lengthOffset.map .expression
  | .endian => b.endian.map .endian
  | .signed => b.signed.map .flag
  | .encoding => b.encoding.map .text
  | .order => b.order.map .order
  | .display => b.display.map .display
  | _ => none

/-- What is in a slot of a number. -/
def NumberBody.datum? (b : NumberBody) : Slot → Option Datum
  | .type => b.type.map .numberType
  | .length => b.length.map .expression
  | .lengthUnit => b.lengthUnit.map .lengthUnit
  | .endian => b.endian.map .endian
  | .signed => b.signed.map .flag
  | .display => b.display.map .display
  | .mustMatch => b.mustMatch.map .flag
  | .values => Datum.ofList? .numbers b.values
  | .masks => Datum.ofList? .masks b.masks
  | _ => none

/-- What is in a slot of a string. -/
def StringBody.datum? (b : StringBody) : Slot → Option Datum
  | .type => b.type.map .stringType
  | .length => b.length.map .expression
  | .lengthUnit => b.lengthUnit.map .lengthUnit
  | .encoding => b.encoding.map .text
  | .delimiter => b.delimiter.map .byte
  | .mustMatch => b.mustMatch.map .flag
  | .values => Datum.ofList? .strings b.values
  | _ => none

/-- What is in a slot of a run of bytes. -/
def BinaryBody.datum? (b : BinaryBody) : Slot → Option Datum
  | .length => b.length.map .expression
  | .lengthUnit => b.lengthUnit.map .lengthUnit
  | .mustMatch => b.mustMatch.map .flag
  | .values => Datum.ofList? .binaries b.values
  | _ => none

/-- What is in a slot of an offset. -/
def OffsetBody.datum? (b : OffsetBody) : Slot → Option Datum
  | .length => b.length.map .expression
  | .lengthUnit => b.lengthUnit.map .lengthUnit
  | .endian => b.endian.map .endian
  | .display => b.display.map .display
  | .relativeTo => Datum.ofLink? b.relativeTo
  | .references => Datum.ofLink? b.references
  | .referencedSize => Datum.ofLink? b.referencedSize
  | .followNullReference => b.followNullReference.map .flag
  | .additional => b.additional.map .expression
  | _ => none

/-- What is in a slot of a reference to a structure. -/
def StructRefBody.datum? (b : StructRefBody) : Slot → Option Datum
  | .disabled => b.disabled.map .flag
  | .target => Datum.ofLink? b.target
  | _ => none

/-- What is in a slot of a reference to a grammar. -/
def GrammarRefBody.datum? (b : GrammarRefBody) : Slot → Option Datum
  | .uti => b.uti.map .text
  | .filename => b.filename.map .text
  | .disabled => b.disabled.map .flag
  | .grammar => Datum.ofLink? b.grammar
  | _ => none

/-- What is in a slot of a field that a script decodes. -/
def CustomBody.datum? (b : CustomBody) : Slot → Option Datum
  | .length => b.length.map .expression
  | .lengthUnit => b.lengthUnit.map .lengthUnit
  | .script => Datum.ofLink? b.script
  | _ => none

/-- What is in a slot that only some kinds have. -/
def Body.datum? : Body → Slot → Option Datum
  | .struct b, s => b.datum? s
  | .number b, s => b.datum? s
  | .string b, s => b.datum? s
  | .binary b, s => b.datum? s
  | .offset b, s => b.datum? s
  | .structRef b, s => b.datum? s
  | .grammarRef b, s => b.datum? s
  | .custom b, s => b.datum? s
  | .script i, .script => i.map .script
  | .script _, _ => none
  | .padding, _ => none

/-- What is in a slot of an element. -/
def Element.datum? (e : Element) : Slot → Option Datum
  | .description => Datum.ofText? e.ident.description
  | .repeatMin => e.repeats.min.map .expression
  | .repeatMax => e.repeats.max.map .expression
  | .fillColour => e.colours.fill.map .colour
  | .strokeColour => e.colours.stroke.map .colour
  | s => e.body.datum? s

/-! ## Filling -/

namespace Fill

variable {α : Type}

theorem ofList?_list (f : List α → Datum) (own base : List α) :
    Datum.ofList? f (list own base) = (Datum.ofList? f own).or (Datum.ofList? f base) := by
  unfold Datum.ofList? list
  split <;> simp_all

theorem ofLink?_link (own base : Option (Link α)) :
    Datum.ofLink? (link own base) = (Datum.ofLink? own).or (Datum.ofLink? base) := by
  unfold Datum.ofLink? link
  rw [Option.map_or, Option.map_map]
  rfl

theorem ofText?_ident (own base : Ident) : Datum.ofText? (ident own base).description =
    (Datum.ofText? own.description).or (Datum.ofText? base.description) := by
  unfold Datum.ofText? ident
  split <;> simp_all

/-- **Filling a body puts data into its empty slots**, those of the same slots of the other. -/
theorem datum?_body? {d b body : Body} (h : body? d b = some body) (s : Slot) :
    body.datum? s = (d.datum? s).or (b.datum? s) := by
  cases d <;> cases b <;> cases h
  case script.script => cases s <;> simp [Body.datum?, Option.map_or]
  case padding.padding => rfl
  all_goals
    unfold Body.datum?
    cases s <;> simp [struct, number, string, binary, offset, structRef, grammarRef, custom,
      StructBody.datum?, NumberBody.datum?, StringBody.datum?, BinaryBody.datum?,
      OffsetBody.datum?, StructRefBody.datum?, GrammarRefBody.datum?, CustomBody.datum?,
      Option.map_or, ofList?_list, ofLink?_link]

end Fill

namespace Element

/-- **Filling an element puts data into its empty slots**, those of the same slots of an element of
the same kind. -/
theorem datum?_fillFrom {own base : Element} (h : own.kind = base.kind) (s : Slot) :
    (own.fillFrom base).datum? s = (own.datum? s).or (base.datum? s) := by
  obtain ⟨body, hbody, hfill⟩ := exists_body? h
  rw [hfill]
  cases s with
  | description => exact Fill.ofText?_ident own.ident base.ident
  | repeatMin => exact Option.map_or
  | repeatMax => exact Option.map_or
  | fillColour => exact Option.map_or
  | strokeColour => exact Option.map_or
  | _ => exact Fill.datum?_body? hbody _

end Element

namespace Document

variable {doc doc' doc'' : Document}

/-- Empty slots of elements have been filled from the same slots of elements of the same kind. -/
structure Fills (doc doc' : Document) : Prop where
  kind : ∀ i, (doc'.element i).kind = (doc.element i).kind
  /-- What is in a slot stays there. -/
  keeps : ∀ {i : Nat} {s : Slot} {v : Datum}, (doc.element i).datum? s = some v →
    (doc'.element i).datum? s = some v
  /-- What is in a slot then has been in this slot of an element of the kind. -/
  takes : ∀ {i : Nat} {s : Slot} {v : Datum}, (doc'.element i).datum? s = some v →
    ∃ j, (doc.element j).kind = (doc.element i).kind ∧ (doc.element j).datum? s = some v

namespace Fills

theorem refl (doc : Document) : Fills doc doc := ⟨fun _ => rfl, id, fun h => ⟨_, rfl, h⟩⟩

theorem trans (h : Fills doc doc') (h' : Fills doc' doc'') : Fills doc doc'' where
  kind := fun i => (h'.kind i).trans (h.kind i)
  keeps := fun hv => h'.keeps (h.keeps hv)
  takes := fun {i s v} hv => by
    obtain ⟨j, hkind, hj⟩ := h'.takes hv
    obtain ⟨k, hkind', hk⟩ := h.takes hj
    refine ⟨k, hkind'.trans ?_, hk⟩
    rw [← h.kind j, hkind, h.kind i]

/-- Nothing is put into any slot. -/
theorem of_same (hkind : ∀ i, (doc'.element i).kind = (doc.element i).kind)
    (h : ∀ i s, (doc'.element i).datum? s = (doc.element i).datum? s) : Fills doc doc' where
  kind := hkind
  keeps := fun hv => (h _ _).trans hv
  takes := fun hv => ⟨_, rfl, (h _ _).symm.trans hv⟩

end Fills

theorem setBase_fills (doc : Document) (i : Nat) (target : Option Nat) :
    Fills doc (doc.setBase i target) := by
  refine .of_same (setBase_edited doc i target).kind fun j s => ?_
  unfold setBase
  rw [element_modify]
  split
  · cases s <;> rfl
  · rfl

theorem fillPair_fills (doc : Document) (p : Nat × Nat) : Fills doc (doc.fillPair p) where
  kind := (doc.fillPair_outline p).kind
  keeps := fun {i s v} hv => by
    rw [element_fillPair]
    split
    · by_cases hkind : (doc.element i).kind = (doc.element p.2).kind
      · rw [Element.datum?_fillFrom hkind, hv]
        rfl
      · rwa [Element.fillFrom_of_kind_ne hkind]
    · exact hv
  takes := fun {i s v} hv => by
    rw [element_fillPair] at hv
    split at hv
    · by_cases hkind : (doc.element i).kind = (doc.element p.2).kind
      · rw [Element.datum?_fillFrom hkind, Option.or_eq_some_iff] at hv
        rcases hv with hv | ⟨_, hv⟩
        · exact ⟨i, rfl, hv⟩
        · exact ⟨p.2, hkind.symm, hv⟩
      · rw [Element.fillFrom_of_kind_ne hkind] at hv
        exact ⟨i, rfl, hv⟩
    · exact ⟨i, rfl, hv⟩

theorem DeriveSteps.fills (h : DeriveSteps doc doc') : Fills doc doc' := by
  induction h with
  | refl => exact .refl doc
  | tail _ hstep ih =>
      refine ih.trans ?_
      cases hstep with
      | link _ _ => exact setBase_fills _ _ _
      | cut i => exact setBase_fills _ i none
      | fill p => exact fillPair_fills _ p

/-! ## Registering -/

/-- **Registering elements changes their parents only.** -/
theorem register_parents (doc : Document) (i : Nat) :
    ∃ parent, doc.register.value.element i = { doc.element i with parent } := by
  let P (doc' : Document) : Prop := ∃ parent, doc'.element i = { doc.element i with parent }
  have hcongr {d d' : Document} (h : d'.elements = d.elements) (hd : P d) : P d' := by
    obtain ⟨parent, hparent⟩ := hd
    refine ⟨parent, ?_⟩
    rw [← hparent]
    unfold element
    rw [h]
  unfold register
  rw [Noted.value_bind]
  refine registerAll_invariant (P := P) _ ?_ (registerAll_invariant (P := P) _
    (fun d s _ hd => hcongr (registerScript_elements d s) hd) ⟨(doc.element i).parent, rfl⟩)
  intro d entry _ hd
  refine hcongr (registerElement_elements d entry) ?_
  obtain ⟨parent, hparent⟩ := hd
  change ∃ p, (d.modify _ _).element i = _
  rw [element_modify]
  split
  · exact ⟨entry.2, by rw [hparent]⟩
  · exact ⟨parent, hparent⟩

theorem register_fills (doc : Document) : Fills doc doc.register.value := by
  have hkind (i : Nat) : (doc.register.value.element i).kind = (doc.element i).kind := by
    obtain ⟨parent, h⟩ := register_parents doc i
    rw [h]
    rfl
  refine .of_same hkind fun i s => ?_
  obtain ⟨parent, h⟩ := register_parents doc i
  rw [h]
  cases s <;> rfl

/-! ## Resolving -/

/-- An element refers to this grammar by its type identifier; the reference that it gets is the name
of the grammar. -/
structure FoundByUti (doc : Document) (i : Nat) (v : Datum) : Prop where
  kind : (doc.element i).kind = .grammarRef
  uti : doc.grammar.uti ≠ "" ∧ (doc.element i).datum? .uti = some (.text doc.grammar.uti)
  name : v = .reference (.name doc.grammar.ident.name)

/-- Links have been looked up: only references to a grammar have got a datum, and only when they
were found by a type identifier. -/
structure Resolves (doc doc' : Document) : Prop where
  kind : ∀ i, (doc'.element i).kind = (doc.element i).kind
  ident : doc'.grammar.ident = doc.grammar.ident
  uti : doc'.grammar.uti = doc.grammar.uti
  same : ∀ {s : Slot}, s ≠ .grammar → ∀ i, (doc'.element i).datum? s = (doc.element i).datum? s
  keeps : ∀ {i : Nat} {v : Datum}, (doc.element i).datum? .grammar = some v →
    (doc'.element i).datum? .grammar = some v
  found : ∀ {i : Nat} {v : Datum}, (doc'.element i).datum? .grammar = some v →
    (doc.element i).datum? .grammar = some v ∨ doc.FoundByUti i v

namespace Resolves

theorem refl (doc : Document) : Resolves doc doc :=
  ⟨fun _ => rfl, rfl, rfl, fun _ _ => rfl, id, Or.inl⟩

/-- What can be found by its type identifier stays so. -/
theorem foundByUti_iff (h : Resolves doc doc') (i : Nat) (v : Datum) :
    doc'.FoundByUti i v ↔ doc.FoundByUti i v := by
  have huti := h.same (s := .uti) (by decide) i
  constructor
  · rintro ⟨hkind, hfound, hname⟩
    rw [h.kind] at hkind
    rw [h.uti, huti] at hfound
    rw [h.ident] at hname
    exact ⟨hkind, hfound, hname⟩
  · rintro ⟨hkind, hfound, hname⟩
    rw [← h.kind] at hkind
    rw [← h.uti, ← huti] at hfound
    rw [← h.ident] at hname
    exact ⟨hkind, hfound, hname⟩

theorem trans (h : Resolves doc doc') (h' : Resolves doc' doc'') : Resolves doc doc'' where
  kind := fun i => (h'.kind i).trans (h.kind i)
  ident := h'.ident.trans h.ident
  uti := h'.uti.trans h.uti
  same := fun hs i => (h'.same hs i).trans (h.same hs i)
  keeps := fun hv => h'.keeps (h.keeps hv)
  found := fun {i v} hv => by
    rcases h'.found hv with hv | hfound
    · exact h.found hv
    · exact Or.inr ((h.foundByUti_iff i v).mp hfound)

/-- Each slot is as it was, or it is the one of an element that is found. -/
theorem of_edited (h : Edited doc doc')
    (hdata : ∀ i s, (doc'.element i).datum? s = (doc.element i).datum? s ∨
      s = .grammar ∧ (doc.element i).datum? s = none ∧
        ∃ v, (doc'.element i).datum? s = some v ∧ doc.FoundByUti i v) : Resolves doc doc' where
  kind := h.kind
  ident := by rw [h.rest]
  uti := by rw [h.rest]
  same := fun hs i => (hdata i _).resolve_right fun hfound => hs hfound.1
  keeps := fun {i v} hv => by
    rcases hdata i .grammar with hsame | ⟨_, hempty, _⟩
    · exact hsame.trans hv
    · rw [hempty] at hv
      cases hv
  found := fun {i v} hv => by
    rcases hdata i .grammar with hsame | ⟨_, _, w, hw, hfound⟩
    · exact Or.inl (hsame.symm.trans hv)
    · cases hw.symm.trans hv
      exact Or.inr hfound

end Resolves

theorem resolveLink_datum (doc : Document) (owner : Label) (attr : String)
    (link : Option (Link Nat)) (expected : Option Kind) :
    Datum.ofLink? (doc.resolveLink owner attr link expected).value = Datum.ofLink? link := by
  cases link <;> rfl

theorem resolveStructRef_datum (doc : Document) (owner : Label) (r : StructRefBody) (s : Slot) :
    (doc.resolveStructRef owner r).value.datum? s = r.datum? s := by
  unfold resolveStructRef
  split
  · rfl
  · cases s <;> try rfl
    exact resolveLink_datum doc owner _ r.target _

theorem resolveCustom_datum (doc : Document) (owner : Label) (c : CustomBody) (s : Slot) :
    (doc.resolveCustom owner c).value.datum? s = c.datum? s := by
  unfold resolveCustom
  split
  · rfl
  · rename_i link hlink
    cases s <;> try rfl
    unfold CustomBody.datum? Datum.ofLink?
    rw [hlink]
    rfl

theorem resolveOffset_datum (doc : Document) (owner : Label) (o : OffsetBody) (s : Slot) :
    (doc.resolveOffset owner o).value.datum? s = o.datum? s := by
  cases s <;> try rfl
  · exact resolveLink_datum doc owner _ o.relativeTo _
  · exact resolveLink_datum doc owner _ o.references _
  · exact resolveLink_datum doc owner _ o.referencedSize _

/-- A reference to a grammar keeps what it has. Where it has no reference it gets one when it is
found by its type identifier. -/
theorem resolveGrammarRef_datum (doc : Document) (owner : Label) (g : GrammarRefBody) (s : Slot) :
    (doc.resolveGrammarRef owner g).value.datum? s = g.datum? s ∨
      s = .grammar ∧ g.datum? .grammar = none ∧ doc.grammar.uti ≠ "" ∧
        g.datum? .uti = some (.text doc.grammar.uti) ∧
        (doc.resolveGrammarRef owner g).value.datum? s =
          some (.reference (.name doc.grammar.ident.name)) := by
  unfold resolveGrammarRef
  split
  · exact Or.inl rfl
  · rename_i hown
    cases s <;> try exact Or.inl rfl
    unfold GrammarRefBody.datum? Datum.ofLink?
    cases hlink : g.grammar with
    | some link => exact Or.inl rfl
    | none =>
        right
        unfold meansOwnGrammar at hown
        simp only [hlink, Option.map_eq_some_iff, decide_eq_true_eq] at hown
        obtain ⟨uti, huti, hne, rfl⟩ := hown
        exact ⟨rfl, rfl, hne, congrArg (Option.map Datum.text) huti, rfl⟩
  · left
    cases s <;> try rfl
    unfold GrammarRefBody.datum? Datum.ofLink?
    rw [Option.map_map]
    rfl

/-- Of all bodies only a reference to a grammar gets a datum. -/
theorem resolveBody_datum (doc : Document) (owner : Label) (b : Body) (s : Slot) :
    (doc.resolveBody owner b).value.datum? s = b.datum? s ∨
      s = .grammar ∧ b.datum? .grammar = none ∧ b.kind = .grammarRef ∧ doc.grammar.uti ≠ "" ∧
        b.datum? .uti = some (.text doc.grammar.uti) ∧
        (doc.resolveBody owner b).value.datum? s =
          some (.reference (.name doc.grammar.ident.name)) := by
  cases b with
  | structRef r => exact Or.inl (resolveStructRef_datum doc owner r s)
  | custom c => exact Or.inl (resolveCustom_datum doc owner c s)
  | offset o => exact Or.inl (resolveOffset_datum doc owner o s)
  | grammarRef g =>
      refine (resolveGrammarRef_datum doc owner g s).imp_right ?_
      rintro ⟨hs, hempty, huti⟩
      exact ⟨hs, hempty, rfl, huti⟩
  | _ => exact Or.inl rfl

theorem resolveBody_resolves (doc : Document) (i : Nat) :
    Resolves doc (doc.modify i fun e =>
      { e with body := (doc.resolveBody (doc.element i).label (doc.element i).body).value }) := by
  refine .of_edited (.modify (resolveBody_shape doc _)) fun j s => ?_
  rw [element_modify]
  split
  · rename_i hij
    rw [← hij.1]
    have hbody := resolveBody_datum doc (doc.element i).label (doc.element i).body s
    cases s with
    | description | repeatMin | repeatMax | fillColour | strokeColour => exact Or.inl rfl
    | grammar =>
        refine hbody.imp_right ?_
        rintro ⟨_, hempty, hkind, huti, huti', hv⟩
        exact ⟨rfl, hempty, _, hv, hkind, ⟨huti, huti'⟩, rfl⟩
    | _ => exact Or.inl (hbody.resolve_right nofun)
  · exact Or.inl rfl

theorem resolveAll_resolves : ∀ (is : List Nat) (doc : Document),
    Resolves doc (resolveAll doc is).value
  | [], doc => .refl doc
  | i :: is, doc => (resolveBody_resolves doc i).trans (resolveAll_resolves is _)

theorem resolveStart_resolves (doc : Document) : Resolves doc doc.resolveStart.value := by
  unfold resolveStart
  split <;> exact ⟨fun _ => rfl, rfl, rfl, fun _ _ => rfl, id, Or.inl⟩

/-! ## All phases -/

/-- Between registering and resolving there is a document whose slots have been filled. -/
theorem update_fills (doc : Document) :
    ∃ filled, Fills doc filled ∧ Resolves filled doc.update.value := by
  refine ⟨_, (register_fills doc).trans (derive_steps doc.register.value
    (doc.register.value.preorder.map (·.1))).fills, ?_⟩
  unfold update
  simp only [Noted.value_bind]
  exact (resolveAll_resolves _ _).trans (resolveStart_resolves _)

/-- An element has the same label, children and reference to a base in the end. -/
theorem update_keeps (doc : Document) (i : Nat) :
    (doc.update.value.element i).label = (doc.element i).label ∧
      (doc.update.value.element i).children = (doc.element i).children ∧
      (doc.update.value.element i).derives.map (·.reference) =
        (doc.element i).derives.map (·.reference) := by
  have hcore := update_core doc
  obtain ⟨parent, hregister⟩ := register_parents doc i
  rw [hcore.label, hcore.children, hcore.reference, hregister]
  exact ⟨rfl, rfl, rfl⟩

/-- An element that is not there has no data. -/
theorem lt_size_of_datum {i : Nat} {s : Slot} {v : Datum}
    (h : (doc.element i).datum? s = some v) : i < doc.elements.size := by
  by_contra hi
  rw [BaseOrder.element_of_size_le (Nat.le_of_not_lt hi)] at h
  cases s <;> cases h

/-- **Loading fills gaps only.** Whatever is reported, every element keeps its kind, its id, its
name, its children and its reference to a base, and every datum that it has. A datum that it gets
has been in the same slot of another element of the same kind, apart from the reference to the
grammar that is found by its type identifier. -/
theorem load_fills_gaps (r : Record.Document) :
    (load r).value.elements.size = (ofRecord r).value.elements.size ∧
    ∀ i,
      ((load r).value.element i).label = ((ofRecord r).value.element i).label ∧
      ((load r).value.element i).children = ((ofRecord r).value.element i).children ∧
      ((load r).value.element i).derives.map (·.reference) =
        ((ofRecord r).value.element i).derives.map (·.reference) ∧
      ∀ s v,
        (((ofRecord r).value.element i).datum? s = some v →
          ((load r).value.element i).datum? s = some v) ∧
        (((ofRecord r).value.element i).datum? s = none →
          ((load r).value.element i).datum? s = some v →
          (∃ j ≠ i, j < (ofRecord r).value.elements.size ∧
            ((ofRecord r).value.element j).kind = ((ofRecord r).value.element i).kind ∧
            ((ofRecord r).value.element j).datum? s = some v) ∨
          (s = .grammar ∧ (load r).value.FoundByUti i v)) := by
  rw [load_value]
  generalize (ofRecord r).value = doc
  obtain ⟨filled, hfills, hresolves⟩ := update_fills doc
  refine ⟨(update_shape doc).size, fun i => ?_⟩
  obtain ⟨hlabel, hchildren, hreference⟩ := update_keeps doc i
  refine ⟨hlabel, hchildren, hreference, fun s v => ⟨fun hv => ?_, fun hempty hv => ?_⟩⟩
  · by_cases hs : s = .grammar
    · subst hs
      exact hresolves.keeps (hfills.keeps hv)
    · rw [hresolves.same hs]
      exact hfills.keeps hv
  · have hfilled : (filled.element i).datum? s = some v ∨
        s = .grammar ∧ doc.update.value.FoundByUti i v := by
      -- only a reference to a grammar can have got a datum after elements were filled
      by_cases hs : s = .grammar
      · subst hs
        refine (hresolves.found hv).imp_right fun hfound => ⟨rfl, ?_⟩
        exact (hresolves.foundByUti_iff i v).mpr hfound
      · exact Or.inl ((hresolves.same hs i).symm.trans hv)
    refine hfilled.imp_left fun hv => ?_
    obtain ⟨j, hkind, hj⟩ := hfills.takes hv
    refine ⟨j, ?_, lt_size_of_datum hj, hkind, hj⟩
    rintro rfl
    rw [hempty] at hj
    cases hj

end Document

end BinaryGrammar
