import BinaryGrammar.Document.Load

/-!
# Linking changes no shapes

Loading a document links its elements and fills them from each other, but an element stays what it
is: no step changes the kind of any element or which elements it has, how many elements there are,
or which of them stands for padding. After the elements have been registered even the maps by which
they are found stay the same. So in every document the element that stands for padding is
padding.
-/

set_option autoImplicit false

namespace BinaryGrammar

/-- The kind of an element and the elements inside it. -/
def Element.shape (e : Element) : Kind × List Nat := (e.kind, e.children)

namespace Document

/-- The same elements, of the same shapes, are in both documents, and the same element stands for
padding. -/
structure SameShape (doc doc' : Document) : Prop where
  padding : doc'.padding = doc.padding
  size : doc'.elements.size = doc.elements.size
  top : doc'.grammar.elements = doc.grammar.elements
  shape : ∀ i, (doc'.element i).shape = (doc.element i).shape

/-- Some elements have been changed, but not their shapes, and nothing else has. -/
structure Edited (doc doc' : Document) : Prop where
  rest : doc' = { doc with elements := doc'.elements }
  size : doc'.elements.size = doc.elements.size
  shape : ∀ i, (doc'.element i).shape = (doc.element i).shape

namespace SameShape

variable {doc doc' doc'' : Document}

theorem refl (doc : Document) : SameShape doc doc := ⟨rfl, rfl, rfl, fun _ => rfl⟩

theorem trans (h : SameShape doc doc') (h' : SameShape doc' doc'') : SameShape doc doc'' where
  padding := h'.padding.trans h.padding
  size := h'.size.trans h.size
  top := h'.top.trans h.top
  shape := fun i => (h'.shape i).trans (h.shape i)

theorem kind (h : SameShape doc doc') (i : Nat) : (doc'.element i).kind = (doc.element i).kind :=
  congrArg Prod.fst (h.shape i)

theorem children (h : SameShape doc doc') (i : Nat) :
    (doc'.element i).children = (doc.element i).children := congrArg Prod.snd (h.shape i)

end SameShape

theorem element_modify (doc : Document) (i j : Nat) (f : Element → Element) :
    (doc.modify i f).element j =
      if i = j ∧ j < doc.elements.size then f (doc.element j) else doc.element j := by
  unfold modify element
  simp only [Array.getD_eq_getD_getElem?, Array.getElem?_modify]
  by_cases hij : i = j
  · by_cases hj : j < doc.elements.size
    · rw [if_pos hij, if_pos ⟨hij, hj⟩, Array.getElem?_eq_getElem hj]
      rfl
    · rw [if_pos hij, if_neg (fun h => hj h.2), Array.getElem?_eq_none (Nat.le_of_not_lt hj)]
      rfl
  · rw [if_neg hij, if_neg (fun h => hij h.1)]

namespace Edited

variable {doc doc' doc'' : Document}

theorem refl (doc : Document) : Edited doc doc := ⟨rfl, rfl, fun _ => rfl⟩

theorem trans (h : Edited doc doc') (h' : Edited doc' doc'') : Edited doc doc'' := by
  refine ⟨?_, h'.size.trans h.size, fun i => (h'.shape i).trans (h.shape i)⟩
  rw [h'.rest, h.rest]

theorem sameShape (h : Edited doc doc') : SameShape doc doc' :=
  ⟨by rw [h.rest], h.size, by rw [h.rest], h.shape⟩

theorem kind (h : Edited doc doc') (i : Nat) : (doc'.element i).kind = (doc.element i).kind :=
  h.sameShape.kind i

/-- A change to one element that keeps its shape. -/
theorem modify {i : Nat} {f : Element → Element}
    (hf : (f (doc.element i)).shape = (doc.element i).shape) : Edited doc (doc.modify i f) := by
  refine ⟨rfl, Array.size_modify, fun j => ?_⟩
  rw [element_modify]
  split
  · rename_i hij
    rw [← hij.1]
    exact hf
  · rfl

/-- Steps taken one after another over a list, on something that has a document in it. -/
theorem foldl {α β : Type} (doc : β → Document) {f : β → α → β}
    (hf : ∀ b a, Edited (doc b) (doc (f b a))) :
    ∀ (xs : List α) (b : β), Edited (doc b) (doc (xs.foldl f b))
  | [], b => refl (doc b)
  | x :: xs, b => (hf b x).trans (foldl doc hf xs (f b x))

end Edited

/-! ## Registering -/

theorem registerScript_shape (doc : Document) (i : Nat) :
    SameShape doc (doc.registerScript i).value := by
  unfold registerScript
  dsimp only
  split
  · exact .refl doc
  · split
    · exact .refl doc
    · exact ⟨rfl, rfl, rfl, fun _ => rfl⟩

theorem registerId_shape (doc : Document) (i : Nat) : SameShape doc (doc.registerId i).value := by
  unfold registerId
  dsimp only
  split
  · exact .refl doc
  · split
    · exact .refl doc
    · exact ⟨rfl, rfl, rfl, fun _ => rfl⟩

theorem registerName_shape (doc : Document) (i : Nat) : SameShape doc (doc.registerName i) := by
  unfold registerName
  dsimp only
  split
  · exact .refl doc
  · exact ⟨rfl, rfl, rfl, fun _ => rfl⟩

theorem registerInlineScript_shape (doc : Document) (i : Nat) :
    SameShape doc (doc.registerInlineScript i).value := by
  unfold registerInlineScript
  split
  · exact registerScript_shape doc _
  · exact .refl doc

theorem registerElement_shape (doc : Document) (entry : Nat × Option Nat) :
    SameShape doc (doc.registerElement entry).value := by
  obtain ⟨i, parent⟩ := entry
  have hparent : SameShape doc (doc.modify i fun e => { e with parent }) :=
    (Edited.modify rfl).sameShape
  unfold registerElement
  rw [Noted.value_bind]
  refine hparent.trans ((registerId_shape _ i).trans ?_)
  exact (registerName_shape _ i).trans (registerInlineScript_shape _ i)

theorem registerAll_shape {α : Type} {f : Document → α → Noted Document}
    (hf : ∀ doc a, SameShape doc (f doc a).value) : ∀ (xs : List α) (doc : Document),
    SameShape doc (registerAll f doc xs).value
  | [], doc => .refl doc
  | x :: xs, doc => (hf doc x).trans (registerAll_shape hf xs (f doc x).value)

theorem register_shape (doc : Document) : SameShape doc doc.register.value := by
  have hcleared : SameShape doc { doc with ids := {}, names := {}, scriptNames := {} } :=
    ⟨rfl, rfl, rfl, fun _ => rfl⟩
  unfold register
  rw [Noted.value_bind]
  exact hcleared.trans ((registerAll_shape registerScript_shape _ _).trans
    (registerAll_shape registerElement_shape _ _))

/-! ## Deriving -/

theorem setBase_edited (doc : Document) (i : Nat) (target : Option Nat) :
    Edited doc (doc.setBase i target) := .modify rfl

theorem linkBase_edited (doc : Document) (i : Nat) : Edited doc (doc.linkBase i).value := by
  unfold linkBase
  split
  · exact .refl doc
  · split
    · exact setBase_edited doc i _
    · exact setBase_edited doc i _

theorem linkBases_edited : ∀ (is : List Nat) (doc : Document), Edited doc (linkBases doc is).value
  | [], doc => .refl doc
  | i :: is, doc => (linkBase_edited doc i).trans (linkBases_edited is (doc.linkBase i).value)

/-- The search for an order may cut links, and changes nothing else. -/
theorem visit_edited : ∀ (depth : Nat) (o : BaseOrder) (i : Nat),
    Edited o.doc (BaseOrder.visit depth o i).doc
  | 0, o, _ => .refl o.doc
  | depth + 1, o, i => by
      unfold BaseOrder.visit
      dsimp only
      split
      · exact .refl o.doc
      · -- the children are visited before the base
        refine (Edited.foldl BaseOrder.doc (visit_edited depth)
          (o.doc.element i).children o).trans ?_
        split
        · exact .refl _
        · split
          · exact .refl _
          · split
            · exact setBase_edited _ i none
            · rename_i base _ _
              exact visit_edited depth (BaseOrder.mark _ i .active) base

theorem orderBases_edited (doc : Document) (order : List Nat) :
    Edited doc (doc.orderBases order).doc :=
  .foldl BaseOrder.doc (visit_edited _) order { doc }

theorem fillFrom_shape (own base : Element) : (own.fillFrom base).shape = own.shape := by
  unfold Element.fillFrom
  split
  · rename_i body hbody
    unfold Element.shape Element.kind Element.children
    unfold Fill.body? at hbody
    split at hbody <;> cases hbody <;> simp [*, Body.kind, Fill.struct]
  · rfl

theorem fill_edited : ∀ (depth : Nat) (doc : Document) (target source : Nat),
    Edited doc (doc.fill depth target source)
  | 0, doc, _, _ => .refl doc
  | depth + 1, doc, target, source => by
      unfold fill
      split
      · exact .refl doc
      · have hown : Edited doc (doc.modify target fun e => e.fillFrom (doc.element source)) :=
          .modify (fillFrom_shape _ _)
        refine hown.trans ?_
        exact .foldl id (fun doc (p : Nat × Nat) => fill_edited depth doc p.1 p.2) _ _

theorem fillFromBase_edited (doc : Document) (i : Nat) : Edited doc (doc.fillFromBase i).value := by
  unfold fillFromBase
  split
  · exact .refl doc
  · rename_i base _
    cases hextend : doc.extend i base with
    | error m => exact setBase_edited doc i none
    | ok doc' =>
        unfold extend at hextend
        split at hextend
        · cases hextend
          exact .refl doc
        · split at hextend
          · cases hextend
          · cases hextend
            exact fill_edited _ doc i base

theorem fillAll_edited : ∀ (is : List Nat) (doc : Document), Edited doc (fillAll doc is).value
  | [], doc => .refl doc
  | i :: is, doc => (fillFromBase_edited doc i).trans (fillAll_edited is (doc.fillFromBase i).value)

theorem derive_edited (doc : Document) (order : List Nat) :
    Edited doc (doc.derive order).value := by
  unfold derive
  simp only [Noted.value_bind]
  exact (linkBases_edited order doc).trans ((orderBases_edited _ order).trans (fillAll_edited _ _))

/-! ## Resolving -/

theorem resolveBody_shape (doc : Document) (e : Element) :
    ({ e with body := (doc.resolveBody e.label e.body).value } : Element).shape = e.shape := by
  unfold Element.shape Element.kind Element.children
  cases e.body with
  | _ => rfl

theorem resolveAll_edited : ∀ (is : List Nat) (doc : Document),
    Edited doc (resolveAll doc is).value
  | [], doc => .refl doc
  | i :: is, doc => by
      refine Edited.trans ?_ (resolveAll_edited is _)
      exact .modify (resolveBody_shape doc _)

theorem resolveStart_shape (doc : Document) : SameShape doc doc.resolveStart.value := by
  unfold resolveStart
  split
  · exact .refl doc
  · exact ⟨rfl, rfl, rfl, fun _ => rfl⟩

/-- **Linking and checking a document changes no shapes.** -/
theorem update_shape (doc : Document) : SameShape doc doc.update.value := by
  unfold update
  simp only [Noted.value_bind]
  exact (register_shape doc).trans ((derive_edited _ _).sameShape.trans
    ((resolveAll_edited _ _).sameShape.trans (resolveStart_shape _)))

/-! ## Padding -/

/-- The element that stands for padding is padding. -/
def Reserved (doc : Document) : Prop := (doc.element doc.padding).kind = .padding

instance (doc : Document) : Decidable doc.Reserved :=
  inferInstanceAs (Decidable ((doc.element doc.padding).kind = .padding))

theorem SameShape.reserved {doc doc' : Document} (h : SameShape doc doc') (hdoc : doc.Reserved) :
    doc'.Reserved := by
  unfold Reserved
  rw [h.padding, h.kind]
  exact hdoc

theorem ofParts_reserved (version : String) (grammar : Grammar) (elements : Array Element)
    (scripts : Array Script) : (ofParts version grammar elements scripts).Reserved := by
  unfold Reserved ofParts element
  simp only [Array.getD_eq_getD_getElem?, Array.getElem?_push_size]
  rfl

/-- The ways in which documents come about: from parts, with another grammar record, and by linking
and checking, with problems or without. -/
inductive Made : Document → Prop where
  | ofParts (version : String) (grammar : Grammar) (elements : Array Element)
      (scripts : Array Script) : Made (.ofParts version grammar elements scripts)
  | withGrammar {doc : Document} (grammar : Grammar) : Made doc → Made { doc with grammar }
  | update {doc : Document} : Made doc → Made doc.update.value

/-- Documents that are loaded are made in these ways. -/
theorem load_made (r : Record.Document) : (load r).value.Made := by
  unfold load
  rw [Noted.value_bind]
  exact .update (.ofParts ..)

/-- **In every document the element that stands for padding is padding.** -/
theorem Made.reserved {doc : Document} (h : doc.Made) : doc.Reserved := by
  induction h with
  | ofParts version grammar elements scripts => exact ofParts_reserved ..
  | withGrammar grammar _ ih => exact ih
  | update _ ih => exact (update_shape _).reserved ih

end Document

end BinaryGrammar
