import BinaryGrammar.Proofs.Registration

/-!
# What elements refer to

An element refers to its children, its parent, and the targets of its links. Links as they are
written have no targets; the ones that they get are found among the elements of the grammar, and a
link that is taken over from a base has none. So no element ever refers to padding.

The main statement is `load_forest`: what the elements of the document of a record are, and what
registering them establishes.
-/

set_option autoImplicit false

namespace BinaryGrammar

/-- The links from a body to elements. -/
def Body.links : Body → List (Option (Link Nat))
  | .structRef r => [r.target]
  | .offset o => [o.relativeTo, o.references, o.referencedSize]
  | _ => []

/-- The links from an element to elements, that to its base first. -/
def Element.links (e : Element) : List (Option (Link Nat)) := e.derives :: e.body.links

/-- All targets of links from an element have the property `S`. -/
def Element.PointsIn (e : Element) (S : Nat → Prop) : Prop :=
  ∀ link ∈ e.links, ∀ t, link.bind (·.target) = some t → S t

/-! ## Links that are taken over -/

namespace Fill

/-- A link that is taken over has no target yet. -/
theorem link_target {own base : Option (Link Nat)} {t : Nat}
    (h : (link own base).bind (·.target) = some t) : own.bind (·.target) = some t := by
  cases own with
  | some l => exact h
  | none => cases base <;> cases h

/-- The links of a body that is filled are its own, filled. -/
theorem links_body? {d b body : Body} (h : body? d b = some body) :
    ∀ filled ∈ body.links, ∃ own ∈ d.links, ∃ base, filled = link own base := by
  intro filled hfilled
  cases d <;> cases b <;> cases h
  case structRef.structRef r s =>
    cases List.mem_singleton.mp hfilled
    exact ⟨r.target, List.mem_singleton_self _, s.target, rfl⟩
  case offset.offset o s =>
    simp only [Body.links, offset, List.mem_cons, List.not_mem_nil, or_false] at hfilled ⊢
    rcases hfilled with rfl | rfl | rfl
    · exact ⟨o.relativeTo, Or.inl rfl, s.relativeTo, rfl⟩
    · exact ⟨o.references, Or.inr (Or.inl rfl), s.references, rfl⟩
    · exact ⟨o.referencedSize, Or.inr (Or.inr rfl), s.referencedSize, rfl⟩
  all_goals cases hfilled

end Fill

theorem Element.PointsIn.fillFrom {own base : Element} {S : Nat → Prop} (h : own.PointsIn S) :
    (own.fillFrom base).PointsIn S := by
  unfold Element.fillFrom
  split
  · rename_i body hbody
    intro link hlink t ht
    rcases List.mem_cons.mp hlink with rfl | hlink
    · exact h _ List.mem_cons_self t ht
    · obtain ⟨l, hl, l', rfl⟩ := Fill.links_body? hbody link hlink
      exact h l (List.mem_cons_of_mem _ hl) t (Fill.link_target ht)
  · exact h

/-! ## Links as they are written -/

theorem Link.parse?_target {α : Type} (s : String) :
    (Link.parse? s : Option (Link α)).bind (·.target) = none := by
  unfold Link.parse?
  cases Reference.parse? s <;> rfl

namespace Build

/-- The elements of an assembly have no parents, and their links no targets. -/
def Assembly.Fresh (a : Assembly) : Prop :=
  ∀ (i : Nat) (e : Element), a.elements[i]? = some e → e.parent = none ∧ e.PointsIn fun _ => False

/-- An element whose links are as the texts of a record write them. -/
theorem Assembly.Fresh.push {a : Assembly} (h : a.Fresh) {e : Noted Element} (texts : List String)
    (he : e.value.parent = none ∧ e.value.links = texts.map Link.parse?) :
    (a.push e).1.Fresh := by
  intro i e' hi
  change (a.elements.push e.value)[i]? = some e' at hi
  rw [Array.getElem?_push] at hi
  split at hi
  · cases hi
    refine ⟨he.1, ?_⟩
    intro link hlink t ht
    rw [he.2] at hlink
    obtain ⟨text, _, rfl⟩ := List.mem_map.mp hlink
    rw [Link.parse?_target] at ht
    cases ht
  · exact h i e' hi

mutual

theorem addElement_fresh : ∀ (e : Record.Element) {a : Assembly}, a.Fresh → (addElement a e).1.Fresh
  | .struct c s elements, a, h =>
      (addElements_fresh elements h).push (e := struct c s (addElements a elements).2) [c.derives]
        (by simp [struct, Element.links, Body.links])
  | .number c n, _, h => h.push (e := number c n) [c.derives]
      (by simp [number, Element.links, Body.links])
  | .string c s, _, h => h.push (e := string c s) [c.derives]
      (by simp [string, Element.links, Body.links])
  | .binary c b, _, h => h.push (e := binary c b) [c.derives]
      (by simp [binary, Element.links, Body.links])
  | .offset c o, _, h =>
      h.push (e := offset c o) [c.derives, o.relativeTo, o.references, o.referencedSize]
        (by simp [offset, Element.links, Body.links])
  | .structRef c r, _, h => h.push (e := structRef c r) [c.derives, r.target]
      (by simp [structRef, Element.links, Body.links])
  | .grammarRef c g, _, h => h.push (e := grammarRef c g) [c.derives]
      (by simp [grammarRef, Element.links, Body.links])
  | .custom c u, _, h => h.push (e := custom c u) [c.derives]
      (by simp [custom, Element.links, Body.links])
  | .script c s, a, h =>
      Assembly.Fresh.push (a := (a.pushScript (script s c.name)).1) h
        (e := { value := scriptElement c a.scripts.size }) [c.derives]
        (by simp [scriptElement, Element.links, Body.links])

theorem addElements_fresh : ∀ (es : List Record.Element) {a : Assembly}, a.Fresh →
    (addElements a es).1.Fresh
  | [], _, h => h
  | e :: es, _, h => addElements_fresh es (addElement_fresh e h)

end

end Build

namespace Document

variable {doc doc' : Document} {S : Nat → Prop}

theorem ofParts_fresh {version : String} {grammar : Grammar} {a : Build.Assembly} (h : a.Fresh)
    (i : Nat) : ((ofParts version grammar a.elements a.scripts).element i).parent = none ∧
      ((ofParts version grammar a.elements a.scripts).element i).PointsIn fun _ => False := by
  have hpadded := h.push (e := { value := { body := .padding } }) [""] (by decide)
  unfold element
  rw [Array.getD_eq_getD_getElem?]
  cases hi : (ofParts version grammar a.elements a.scripts).elements[i]? with
  | none =>
      refine ⟨rfl, fun link hlink t ht => ?_⟩
      cases List.mem_singleton.mp hlink
      cases ht
  | some e => exact hpadded i e hi

/-- In the document of a record nothing is linked yet. -/
theorem ofRecord_fresh (r : Record.Document) (i : Nat) :
    ((ofRecord r).value.element i).parent = none ∧
      ((ofRecord r).value.element i).PointsIn fun _ => False := by
  have hscripts (notes : Array Diagnostic) : Build.Assembly.Fresh
      (Build.Assembly.addScripts { notes } r.grammar.scripts).1 := by
    unfold Build.Assembly.Fresh
    rw [addScripts_elements]
    intro i e hi
    simp at hi
  exact ofParts_fresh (Build.addElements_fresh r.grammar.elements (hscripts _)) i

/-! ## Links that are resolved -/

/-- All targets of links have the property `S`. -/
def PointsIn (doc : Document) (S : Nat → Prop) : Prop := ∀ i, (doc.element i).PointsIn S

/-- A change to one element. -/
theorem PointsIn.modify (h : doc.PointsIn S) {i : Nat} {f : Element → Element}
    (hf : (f (doc.element i)).PointsIn S) : (doc.modify i f).PointsIn S := by
  intro j
  rw [element_modify]
  split
  · rename_i hij
    rw [← hij.1]
    exact hf
  · exact h j

theorem setBase_pointsIn (h : doc.PointsIn S) (i : Nat) {target : Option Nat}
    (htarget : ∀ t, target = some t → S t) : (doc.setBase i target).PointsIn S := by
  refine h.modify ?_
  intro link hlink t ht
  rcases List.mem_cons.mp hlink with rfl | hlink
  · cases hderives : (doc.element i).derives with
    | none =>
        rw [hderives] at ht
        cases ht
    | some l =>
        rw [hderives] at ht
        exact htarget t ht
  · exact h i link (List.mem_cons_of_mem _ hlink) t ht

theorem DeriveStep.pointsIn (hstep : DeriveStep doc doc') (hfinds : doc.FindsIn S)
    (h : doc.PointsIn S) : doc'.PointsIn S := by
  cases hstep with
  | link _ hresolve =>
      refine setBase_pointsIn h _ fun t ht => ?_
      cases ht
      exact hfinds.resolve hresolve
  | cut i => exact setBase_pointsIn h i nofun
  | fill p => exact h.modify (h p.1).fillFrom

theorem DeriveStep.edited (h : DeriveStep doc doc') : Edited doc doc' := by
  cases h with
  | link _ _ => exact setBase_edited doc _ _
  | cut i => exact setBase_edited doc i none
  | fill p => exact .modify (fillFrom_shape _ _)

theorem DeriveSteps.pointsIn (hsteps : DeriveSteps doc doc') (hfinds : doc.FindsIn S)
    (h : doc.PointsIn S) : doc'.FindsIn S ∧ doc'.PointsIn S := by
  induction hsteps with
  | refl => exact ⟨hfinds, h⟩
  | tail _ hstep ih => exact ⟨ih.1.edited hstep.edited, hstep.pointsIn ih.1 ih.2⟩

/-- What is found for a reference can be found in the document; a target of the wrong kind is
reported and dropped. -/
theorem resolveKind_target (hfinds : doc.FindsIn S) {owner : Label} {attr : String}
    {reference : Reference} {expected : Option Kind} {t : Nat}
    (h : (doc.resolveKind owner attr reference expected).value = some t) : S t := by
  unfold resolveKind at h
  split at h
  · cases h
  · rename_i u hu
    have hS := hfinds.resolve hu
    split at h
    · cases h
      exact hS
    · split at h
      · cases h
        exact hS
      · cases h

/-- So can what is found for a link. -/
theorem resolveLink_target (hfinds : doc.FindsIn S) {owner : Label} {attr : String}
    {link : Option (Link Nat)} {expected : Option Kind} {t : Nat}
    (h : (doc.resolveLink owner attr link expected).value.bind (·.target) = some t) : S t := by
  cases link with
  | none => cases h
  | some link => exact resolveKind_target hfinds h

theorem resolveBody_links (hfinds : doc.FindsIn S) (owner : Label) (body : Body) :
    ∀ link ∈ (doc.resolveBody owner body).value.links, ∀ t,
      link.bind (·.target) = some t → S t := by
  intro link hlink t ht
  cases body with
  | structRef r =>
      cases List.mem_singleton.mp hlink
      unfold resolveStructRef at ht
      split at ht
      · rename_i hnone
        rw [hnone] at ht
        cases ht
      · exact resolveLink_target hfinds ht
  | offset o =>
      simp only [resolveBody, resolveOffset, Body.links, Noted.value_bind, Noted.value_pure,
        List.mem_cons, List.not_mem_nil, or_false] at hlink
      rcases hlink with rfl | rfl | rfl
      all_goals exact resolveLink_target hfinds ht
  | _ => cases hlink

theorem resolveBody_pointsIn (hfinds : doc.FindsIn S) {e : Element} (h : e.PointsIn S) :
    ({ e with body := (doc.resolveBody e.label e.body).value } : Element).PointsIn S := by
  intro link hlink t ht
  rcases List.mem_cons.mp hlink with rfl | hlink
  · exact h _ List.mem_cons_self t ht
  · exact resolveBody_links hfinds e.label e.body link hlink t ht

theorem resolveAll_pointsIn : ∀ (is : List Nat) {doc : Document}, doc.FindsIn S →
    doc.PointsIn S → (resolveAll doc is).value.PointsIn S
  | [], _, _, h => h
  | i :: is, doc, hfinds, h =>
      resolveAll_pointsIn is (hfinds.edited (.modify (resolveBody_shape doc _)))
        (h.modify (resolveBody_pointsIn hfinds (h i)))

theorem resolveStart_target (hfinds : doc.FindsIn S) {t : Nat}
    (h : doc.resolveStart.value.start = some t) : S t := by
  unfold resolveStart at h
  split at h
  · rename_i hnone
    unfold start at h
    rw [hnone] at h
    cases h
  · exact resolveKind_target hfinds h

/-- **Links only ever point to elements of the grammar**, and so does the one to the structure where
decoding starts. -/
theorem update_pointsIn (h : doc.PointsIn fun _ => False) :
    doc.update.value.PointsIn doc.Listed ∧
      ∀ t, doc.update.value.start = some t → doc.Listed t := by
  have hregister : doc.register.value.PointsIn doc.Listed := by
    intro i link hlink t ht
    obtain ⟨parent, helement⟩ := register_parents doc i
    rw [helement] at hlink
    exact (h i link hlink t ht).elim
  obtain ⟨hfinds, hderived⟩ := (derive_steps doc.register.value
    (doc.register.value.preorder.map (·.1))).pointsIn (register_finds doc) hregister
  constructor
  · obtain ⟨grammar, hupdate⟩ := update_value doc
    rw [hupdate]
    exact resolveAll_pointsIn _ hfinds hderived
  · intro t ht
    unfold update at ht
    simp only [Noted.value_bind] at ht
    exact resolveStart_target (hfinds.edited (resolveAll_edited _ _)) ht

/-! ## The document of a record -/

/-- An element has another one inside, or for its parent, or a link to it. -/
def Refers (doc : Document) (i j : Nat) : Prop :=
  j ∈ (doc.element i).children ∨ (doc.element i).parent = some j ∨
    ∃ link ∈ (doc.element i).links, link.bind (·.target) = some j

/-- Nothing refers to padding when parents are the inverse of children and links point to elements
of the grammar. -/
theorem Forest.not_refers (h : doc.Forest)
    (hparent : ∀ i j, (doc.element i).parent = some j → i ∈ (doc.element j).children)
    (hpoints : doc.PointsIn (· < doc.padding)) (i : Nat) : ¬doc.Refers i doc.padding := by
  rintro (hchild | hparent' | ⟨link, hlink, htarget⟩)
  · have hmem := h.mem_preorder_of_child hchild
    have hlisted : doc.Listed doc.padding := List.mem_map.mpr ⟨_, hmem, rfl⟩
    exact Nat.lt_irrefl _ ((h.listed_iff _).mp hlisted)
  · have hchild := hparent i doc.padding hparent'
    rw [h.children_of_le (Nat.le_refl _)] at hchild
    cases hchild
  · exact Nat.lt_irrefl _ (hpoints i link hlink _ htarget)

/-- A document has the elements of a record, and nothing is linked yet. -/
structure Transcribes (doc : Document) (r : Record.Document) : Prop where
  /-- The elements of the grammar, read back through their children, are the records. -/
  laid : doc.LaidAll 0 r.grammar.elements doc.grammar.elements doc.padding
  /-- Every number but that of padding, the last one, is come to exactly once. -/
  forest : doc.Forest
  unreferred : ∀ i, ¬doc.Refers i doc.padding

/-- The elements of a document can be found, and what stood in the way has been reported. -/
structure Registered (doc : Document) (notes : List Diagnostic) : Prop where
  /-- Parents are the inverse of children. -/
  parent : ∀ i j, (doc.element i).parent = some j ↔ i ∈ (doc.element j).children
  top : ∀ i ∈ doc.grammar.elements, (doc.element i).parent = none
  /-- An id belongs to the first element in pre-order that has it. -/
  id : ∀ n ≠ 0, doc.byId n =
    (doc.preorder.map (·.1)).find? fun i => (doc.element i).ident.id == n
  /-- All the others that have it are reported. -/
  repeats : ∀ n ≠ 0, notes.countP (Diagnostic.repeatsId n) =
    doc.elements.toList.countP (fun e => e.ident.id == n) - 1
  /-- A name belongs to the first element of the grammar itself that has it, or else to the first
  element in pre-order. -/
  name : ∀ s ≠ "", doc.byName s =
    (doc.grammar.elements.find? fun i => (doc.element i).name == s).or
      ((doc.preorder.map (·.1)).find? fun i => (doc.element i).name == s)
  unreferred : ∀ i, ¬doc.Refers i doc.padding

theorem ofRecord_transcribes (r : Record.Document) : (ofRecord r).value.Transcribes r where
  laid := ofRecord_laid r
  forest := ofRecord_forest r
  unreferred := by
    refine (ofRecord_forest r).not_refers ?_ ?_
    · intro i j hparent
      rw [(ofRecord_fresh r i).1] at hparent
      cases hparent
    · intro i link hlink t ht
      exact ((ofRecord_fresh r i).2 link hlink t ht).elim

/-- Elements with an id are counted in pre-order. -/
theorem Forest.countP_id (h : doc.Forest) (hpadding : (doc.element doc.padding).ident.id = 0)
    {n : Nat} (hn : n ≠ 0) : doc.elements.toList.countP (fun e => e.ident.id == n) =
      (doc.preorder.map (·.1)).countP fun i => (doc.element i).ident.id == n := by
  have helements : doc.elements.toList = (List.range doc.elements.size).map doc.element := by
    refine List.ext_getElem (by simp) fun i hi _ => ?_
    have hsize : i < doc.elements.size := hi
    simp [element, hsize]
  have hlast : [doc.element doc.padding].countP (fun e => e.ident.id == n) = 0 := by
    rw [List.countP_singleton, hpadding, if_neg]
    simpa using hn.symm
  rw [helements, ← h.last, List.range_succ, List.map_append, List.countP_append, List.map_singleton,
    hlast, Nat.add_zero, List.countP_map, h.once.countP_eq]
  rfl

/-- What is reported about an id is reported while registering. -/
theorem countP_repeatsId (n : Nat) (notes : List Diagnostic) :
    notes.countP (Diagnostic.repeatsId n) =
      (notes.filter Phase.registering.reports).countP (Diagnostic.repeatsId n) := by
  rw [List.countP_filter]
  refine List.countP_congr fun d _ => ?_
  cases d <;> simp [Diagnostic.repeatsId, Phase.reports]

/-- **What registering establishes holds in the end.** -/
theorem update_registered (h : doc.Forest) (hparent : ∀ i, (doc.element i).parent = none)
    (hpoints : doc.PointsIn fun _ => False) (hpadding : (doc.element doc.padding).ident.id = 0)
    {notes : List Diagnostic}
    (hnotes : notes.filter Phase.registering.reports = doc.register.notes) :
    doc.update.value.Registered notes := by
  have hshape := update_shape doc
  have hforest := h.sameShape hshape
  have hlabel (i : Nat) : (doc.update.value.element i).ident.id = (doc.element i).ident.id ∧
      (doc.update.value.element i).name = (doc.element i).name := by
    have h := (update_keeps doc i).1
    unfold Element.label at h
    injection h with _ hid hname
    exact ⟨hid, hname⟩
  have hid (i : Nat) := (hlabel i).1
  have hname (i : Nat) := (hlabel i).2
  have hinverse (i j : Nat) : (doc.update.value.element i).parent = some j ↔
      i ∈ (doc.update.value.element j).children := by
    rw [(update_core doc).parent, hshape.children]
    exact register_parent h hparent i j
  refine ⟨hinverse, ?_, ?_, ?_, ?_, ?_⟩
  · intro i hi
    rw [hshape.top] at hi
    rw [(update_core doc).parent]
    exact register_parent_of_mem h (mem_preorder_of_top hi)
  · intro n hn
    unfold byId
    rw [(update_tables doc).1, (register_id doc hn).1, preorder_congr hshape]
    simp only [hid]
  · intro n hn
    have hpadding' : (doc.update.value.element doc.update.value.padding).ident.id = 0 := by
      rw [hshape.padding, hid]
      exact hpadding
    rw [countP_repeatsId, hnotes, (register_id doc hn).2, hforest.countP_id hpadding' hn,
      preorder_congr hshape]
    simp only [hid]
  · intro s hs
    unfold byName
    rw [(update_tables doc).2, register_name doc hs, preorder_congr hshape]
    simp only [hname]
    split <;> simp [*]
  · refine hforest.not_refers (fun i j => (hinverse i j).mp) ?_
    intro i link hlink t ht
    rw [hshape.padding]
    exact (h.listed_iff t).mp ((update_pointsIn hpoints).1 i link hlink t ht)

theorem ofParts_padding (version : String) (grammar : Grammar) (elements : Array Element)
    (scripts : Array Script) : (ofParts version grammar elements scripts).element
      (ofParts version grammar elements scripts).padding = { body := .padding } := by
  unfold ofParts element
  simp only [Array.getD_eq_getD_getElem?, Array.getElem?_push_size]
  rfl

/-- **The document of a record is its forest, and loading registers it**, whatever is reported. -/
theorem load_forest (r : Record.Document) :
    (ofRecord r).value.Transcribes r ∧ SameShape (ofRecord r).value (load r).value ∧
      (load r).value.Registered (load r).notes := by
  have hpadding : ((ofRecord r).value.element (ofRecord r).value.padding).ident.id = 0 := by
    unfold ofRecord
    dsimp only
    rw [ofParts_padding]
  refine ⟨ofRecord_transcribes r, ?_, ?_⟩
  · rw [load_value]
    exact update_shape _
  · rw [load_value]
    exact update_registered (ofRecord_forest r) (fun i => (ofRecord_fresh r i).1)
      (fun i => (ofRecord_fresh r i).2) hpadding (load_registering r)

end Document

end BinaryGrammar
