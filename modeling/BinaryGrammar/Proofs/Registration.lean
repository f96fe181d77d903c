import BinaryGrammar.Proofs.Forest

/-!
# What registering elements establishes

Elements are registered in pre-order. As each of them is come to once, the parents that they get are
the inverse of the children. An id belongs to the first element in pre-order that has it, and every
other element with the id is reported, once. A name belongs to the first element of the grammar
itself that has it, or else to the first element in pre-order.

What one registration does to a table is a step lemma; what all of them do follows by induction on
the entries. Later phases change neither the tables nor the labels.
-/

set_option autoImplicit false

namespace BinaryGrammar

/-- A second element with an id is reported. -/
def Diagnostic.repeatsId (n : Nat) : Diagnostic → Bool
  | duplicateId m _ _ => m == n
  | _ => false

namespace Document

variable {doc doc' : Document}

/-! ## One registration -/

theorem element_registerElement (doc : Document) (entry : Nat × Option Nat) (j : Nat) :
    (doc.registerElement entry).value.element j =
      if entry.1 = j ∧ j < doc.elements.size then { doc.element j with parent := entry.2 }
      else doc.element j := by
  have hmodify := element_modify doc entry.1 j fun e => { e with parent := entry.2 }
  rw [← hmodify]
  unfold element
  rw [registerElement_elements]

theorem registerElement_ident (doc : Document) (entry : Nat × Option Nat) (j : Nat) :
    ((doc.registerElement entry).value.element j).ident = (doc.element j).ident := by
  rw [element_registerElement]
  split <;> rfl

/-- Registering a script leaves the tables of elements as they are. -/
theorem registerScript_tables (doc : Document) (i : Nat) :
    (doc.registerScript i).value.ids = doc.ids ∧
      (doc.registerScript i).value.names = doc.names := by
  unfold registerScript
  dsimp only
  split
  · exact ⟨rfl, rfl⟩
  · split <;> exact ⟨rfl, rfl⟩

theorem registerInlineScript_tables (doc : Document) (i : Nat) :
    (doc.registerInlineScript i).value.ids = doc.ids ∧
      (doc.registerInlineScript i).value.names = doc.names := by
  unfold registerInlineScript
  split
  · exact registerScript_tables doc _
  · exact ⟨rfl, rfl⟩

theorem registerScript_repeatsId (doc : Document) (i n : Nat) :
    (doc.registerScript i).notes.countP (Diagnostic.repeatsId n) = 0 := by
  unfold registerScript
  dsimp only
  split
  · rfl
  · split
    · dsimp only
      split <;> rfl
    · rfl

theorem registerInlineScript_repeatsId (doc : Document) (i n : Nat) :
    (doc.registerInlineScript i).notes.countP (Diagnostic.repeatsId n) = 0 := by
  unfold registerInlineScript
  split
  · exact registerScript_repeatsId doc _ n
  · rfl

theorem registerName_ids (doc : Document) (i : Nat) : (doc.registerName i).ids = doc.ids := by
  unfold registerName
  dsimp only
  split <;> rfl

theorem registerId_nameTable (doc : Document) (i : Nat) :
    (doc.registerId i).value.names = doc.names := by
  unfold registerId
  dsimp only
  split
  · rfl
  · split <;> rfl

/-- An element takes an id that nobody has, and is reported when somebody has its id. -/
theorem registerId_id (doc : Document) (i : Nat) {n : Nat} (hn : n ≠ 0) :
    (doc.registerId i).value.ids[n]? =
        doc.ids[n]?.or (if (doc.element i).ident.id = n then some i else none) ∧
      (doc.registerId i).notes.countP (Diagnostic.repeatsId n) =
        if (doc.element i).ident.id = n ∧ doc.ids[n]?.isSome then 1 else 0 := by
  unfold registerId
  dsimp only
  by_cases hzero : (doc.element i).ident.id = 0
  · have hne : (doc.element i).ident.id ≠ n := fun h => hn (h.symm.trans hzero)
    rw [if_pos hzero, if_neg hne, if_neg fun h => hne h.1, Option.or_none]
    exact ⟨rfl, rfl⟩
  · rw [if_neg hzero]
    by_cases hid : (doc.element i).ident.id = n
    · rw [hid, if_pos rfl]
      cases hfirst : doc.ids[n]? with
      | some first => exact ⟨hfirst, by simp [Diagnostic.repeatsId]⟩
      | none => exact ⟨Std.HashMap.getElem?_insert_self, by simp⟩
    · rw [if_neg hid, if_neg fun h => hid h.1, Option.or_none]
      split
      · exact ⟨rfl, by simp [Diagnostic.repeatsId, hid]⟩
      · refine ⟨?_, rfl⟩
        rw [Std.HashMap.getElem?_insert, if_neg]
        simpa using hid

/-- An element takes a name that nobody has. -/
theorem registerName_name (doc : Document) (i : Nat) {s : String} (hs : s ≠ "") :
    (doc.registerName i).names[s]? =
      doc.names[s]?.or (if (doc.element i).name = s then some i else none) := by
  unfold registerName
  dsimp only
  by_cases hname : (doc.element i).name = s
  · have hne : ¬s.isEmpty := by simpa using hs
    rw [hname, if_neg hne, if_pos rfl]
    dsimp only
    rw [Std.HashMap.getElem?_insertIfNew]
    have hmem := Std.HashMap.mem_iff_isSome_getElem? (m := doc.names) (a := s)
    cases hfirst : doc.names[s]? with
    | some first =>
        rw [hfirst] at hmem
        rw [if_neg fun h => h.2 (hmem.mpr rfl)]
        rfl
    | none =>
        rw [hfirst] at hmem
        exact if_pos ⟨beq_self_eq_true s, fun h => by cases hmem.mp h⟩
  · rw [if_neg hname, Option.or_none]
    split
    · rfl
    · dsimp only
      rw [Std.HashMap.getElem?_insertIfNew, if_neg]
      simp [hname]

theorem registerElement_id (doc : Document) (entry : Nat × Option Nat) {n : Nat} (hn : n ≠ 0) :
    (doc.registerElement entry).value.ids[n]? =
        doc.ids[n]?.or (if (doc.element entry.1).ident.id = n then some entry.1 else none) ∧
      (doc.registerElement entry).notes.countP (Diagnostic.repeatsId n) =
        if (doc.element entry.1).ident.id = n ∧ doc.ids[n]?.isSome then 1 else 0 := by
  obtain ⟨i, parent⟩ := entry
  have hident : ((doc.modify i fun e => { e with parent }).element i).ident =
      (doc.element i).ident := by
    rw [element_modify]
    split <;> rfl
  have hid := registerId_id (doc.modify i fun e => { e with parent }) i hn
  rw [hident] at hid
  unfold registerElement
  rw [Noted.value_bind, Noted.notes_bind, List.countP_append, registerInlineScript_repeatsId,
    (registerInlineScript_tables _ i).1, registerName_ids]
  exact hid

theorem registerElement_name (doc : Document) (entry : Nat × Option Nat) {s : String}
    (hs : s ≠ "") : (doc.registerElement entry).value.names[s]? =
      doc.names[s]?.or (if (doc.element entry.1).name = s then some entry.1 else none) := by
  obtain ⟨i, parent⟩ := entry
  have hname : (((doc.modify i fun e => { e with parent }).registerId i).value.element i).name =
      (doc.element i).name := by
    unfold element
    rw [registerId_elements]
    change ((doc.modify i fun e => { e with parent }).element i).name = (doc.element i).name
    rw [element_modify]
    split <;> rfl
  unfold registerElement
  rw [Noted.value_bind, (registerInlineScript_tables _ i).2, registerName_name _ i hs,
    registerId_nameTable, hname]
  rfl

/-! ## All registrations -/

/-- A table that keeps the first entry for a key has the first of all entries for it. -/
theorem registerAll_first (get : Document → Option Nat) (key : Document → Nat → Bool)
    (hstep : ∀ doc entry, get (doc.registerElement entry).value =
      (get doc).or (if key doc entry.1 then some entry.1 else none))
    (hkey : ∀ doc entry, key (doc.registerElement entry).value = key doc)
    (entries : List (Nat × Option Nat)) (doc : Document) :
    get (registerAll registerElement doc entries).value =
      (get doc).or ((entries.map (·.1)).find? (key doc)) := by
  induction entries generalizing doc with
  | nil => exact Option.or_none.symm
  | cons entry entries ih =>
      unfold registerAll
      rw [Noted.value_bind, ih, hstep, hkey, Option.or_assoc, List.map_cons, List.find?_cons]
      congr 1
      cases key doc entry.1 <;> rfl

/-- **An id belongs to the first element that has it.** -/
theorem registerAll_id {n : Nat} (hn : n ≠ 0) (entries : List (Nat × Option Nat))
    (doc : Document) : (registerAll registerElement doc entries).value.ids[n]? =
      doc.ids[n]?.or ((entries.map (·.1)).find? fun i => (doc.element i).ident.id == n) := by
  refine registerAll_first (fun doc => doc.ids[n]?) (fun doc i => (doc.element i).ident.id == n)
    ?_ ?_ entries doc
  · intro doc entry
    simp only [(registerElement_id doc entry hn).1, beq_iff_eq]
  · intro doc entry
    funext i
    rw [registerElement_ident]

/-- **A name belongs to the first element that has it.** -/
theorem registerAll_name {s : String} (hs : s ≠ "") (entries : List (Nat × Option Nat))
    (doc : Document) : (registerAll registerElement doc entries).value.names[s]? =
      doc.names[s]?.or ((entries.map (·.1)).find? fun i => (doc.element i).name == s) := by
  refine registerAll_first (fun doc => doc.names[s]?) (fun doc i => (doc.element i).name == s)
    ?_ ?_ entries doc
  · intro doc entry
    simp only [registerElement_name doc entry hs, beq_iff_eq]
  · intro doc entry
    funext i
    unfold Element.name
    rw [registerElement_ident]

/-- **Every other element with the id is reported**, and once. -/
theorem registerAll_repeatsId {n : Nat} (hn : n ≠ 0) (entries : List (Nat × Option Nat))
    (doc : Document) :
    (registerAll registerElement doc entries).notes.countP (Diagnostic.repeatsId n) =
      (entries.map (·.1)).countP (fun i => (doc.element i).ident.id == n) -
        if doc.ids[n]?.isSome then 0 else 1 := by
  induction entries generalizing doc with
  | nil => exact (Nat.zero_sub _).symm
  | cons entry entries ih =>
      unfold registerAll
      obtain ⟨hids, hnotes⟩ := registerElement_id doc entry hn
      rw [Noted.notes_bind, List.countP_append, ih, hids, hnotes, List.map_cons, List.countP_cons]
      simp only [registerElement_ident, beq_iff_eq]
      by_cases hid : (doc.element entry.1).ident.id = n
      · -- the first element with the id is the one that is not reported
        cases doc.ids[n]? with
        | none => simp [hid]
        | some first =>
            simp [hid]
            omega
      · simp [hid]

/-- An element that is not registered keeps its parent. -/
theorem registerAll_parent_other {i : Nat} (entries : List (Nat × Option Nat)) (doc : Document)
    (h : i ∉ entries.map (·.1)) :
    ((registerAll registerElement doc entries).value.element i).parent =
      (doc.element i).parent := by
  induction entries generalizing doc with
  | nil => rfl
  | cons entry entries ih =>
      rw [List.map_cons, List.mem_cons, not_or] at h
      unfold registerAll
      rw [Noted.value_bind, ih _ h.2, element_registerElement, if_neg fun heq => h.1 heq.1.symm]

/-- **An element gets the parent that it is registered with**, when it is registered once. -/
theorem registerAll_parent {i : Nat} {parent : Option Nat} (entries : List (Nat × Option Nat))
    (doc : Document) (hnodup : (entries.map (·.1)).Nodup) (hi : i < doc.elements.size)
    (h : (i, parent) ∈ entries) :
    ((registerAll registerElement doc entries).value.element i).parent = parent := by
  induction entries generalizing doc with
  | nil => cases h
  | cons entry entries ih =>
      rw [List.map_cons, List.nodup_cons] at hnodup
      unfold registerAll
      rw [Noted.value_bind]
      rcases List.mem_cons.mp h with heq | h
      · -- nothing that is registered later changes it again
        cases heq
        rw [registerAll_parent_other entries _ hnodup.1, element_registerElement,
          if_pos ⟨rfl, hi⟩]
      · refine ih _ hnodup.2 ?_ h
        rw [(registerElement_shape doc entry).size]
        exact hi

/-- The document in which elements are registered: scripts are registered before them. -/
def withScripts (doc : Document) : Noted Document :=
  registerAll registerScript { doc with ids := {}, names := {}, scriptNames := {} }
    doc.grammar.scripts

theorem register_eq (doc : Document) : doc.register =
    doc.withScripts >>= fun scripted => registerAll registerElement scripted scripted.preorder :=
  rfl

theorem withScripts_shape (doc : Document) : SameShape doc doc.withScripts.value := by
  have hcleared : SameShape doc { doc with ids := {}, names := {}, scriptNames := {} } :=
    ⟨rfl, rfl, rfl, fun _ => rfl⟩
  exact hcleared.trans (registerAll_shape registerScript_shape _ _)

theorem withScripts_element (doc : Document) (i : Nat) :
    doc.withScripts.value.element i = doc.element i := by
  have helements : doc.withScripts.value.elements = doc.elements :=
    registerAll_invariant (P := fun doc' => doc'.elements = doc.elements) _
      (fun doc' s _ h => (registerScript_elements doc' s).trans h) rfl
  unfold element
  rw [helements]

theorem withScripts_tables (doc : Document) :
    doc.withScripts.value.ids = {} ∧ doc.withScripts.value.names = {} := by
  refine registerAll_invariant (P := fun doc' => doc'.ids = {} ∧ doc'.names = {}) _ ?_ ⟨rfl, rfl⟩
  intro doc' s _ h
  rw [(registerScript_tables doc' s).1, (registerScript_tables doc' s).2]
  exact h

theorem registerScripts_repeatsId (n : Nat) (scripts : List Nat) (doc : Document) :
    (registerAll registerScript doc scripts).notes.countP (Diagnostic.repeatsId n) = 0 := by
  induction scripts generalizing doc with
  | nil => rfl
  | cons s scripts ih =>
      unfold registerAll
      rw [Noted.notes_bind, List.countP_append, registerScript_repeatsId, ih]

/-- **Ids and names after registration.** -/
theorem register_id (doc : Document) {n : Nat} (hn : n ≠ 0) :
    doc.register.value.ids[n]? =
        (doc.preorder.map (·.1)).find? (fun i => (doc.element i).ident.id == n) ∧
      doc.register.notes.countP (Diagnostic.repeatsId n) =
        (doc.preorder.map (·.1)).countP (fun i => (doc.element i).ident.id == n) - 1 := by
  have hempty : doc.withScripts.value.ids[n]? = none := by
    rw [(withScripts_tables doc).1]
    exact Std.HashMap.getElem?_empty
  rw [register_eq, Noted.value_bind, Noted.notes_bind, List.countP_append, registerAll_id hn,
    registerAll_repeatsId hn, hempty, preorder_congr (withScripts_shape doc)]
  simp only [withScripts_element]
  refine ⟨rfl, ?_⟩
  unfold withScripts
  rw [registerScripts_repeatsId, Nat.zero_add]
  rfl

theorem register_name (doc : Document) {s : String} (hs : s ≠ "") :
    doc.register.value.names[s]? =
      (doc.preorder.map (·.1)).find? (fun i => (doc.element i).name == s) := by
  have hempty : doc.withScripts.value.names[s]? = none := by
    rw [(withScripts_tables doc).2]
    exact Std.HashMap.getElem?_empty
  rw [register_eq, Noted.value_bind, registerAll_name hs, hempty,
    preorder_congr (withScripts_shape doc)]
  simp only [withScripts_element]
  rfl

theorem register_value (doc : Document) : doc.register.value =
    (registerAll registerElement doc.withScripts.value doc.preorder).value := by
  rw [register_eq, Noted.value_bind, preorder_congr (withScripts_shape doc)]

/-- An element has the parent that it stands with in pre-order. -/
theorem register_parent_of_mem (h : doc.Forest) {i : Nat} {parent : Option Nat}
    (hp : (i, parent) ∈ doc.preorder) : (doc.register.value.element i).parent = parent := by
  have hlisted : doc.Listed i := List.mem_map.mpr ⟨_, hp, rfl⟩
  have hi : i < doc.withScripts.value.elements.size := by
    rw [(withScripts_shape doc).size]
    exact hlisted.lt_size h.numbered
  rw [register_value]
  exact registerAll_parent _ _ h.nodup hi hp

/-- **Parents are the inverse of children.** -/
theorem register_parent (h : doc.Forest) (hnone : ∀ i, (doc.element i).parent = none) (i j : Nat) :
    (doc.register.value.element i).parent = some j ↔ i ∈ (doc.element j).children := by
  constructor
  · intro hparent
    by_cases hi : i ∈ doc.preorder.map (·.1)
    · obtain ⟨⟨_, p⟩, hp, rfl⟩ := List.mem_map.mp hi
      rw [register_parent_of_mem h hp] at hparent
      cases hparent
      exact child_of_mem_preorder hp
    · -- padding, which is not registered, has no parent
      rw [register_value, registerAll_parent_other _ _ hi, withScripts_element, hnone] at hparent
      cases hparent
  · intro hchild
    exact register_parent_of_mem h (h.mem_preorder_of_child hchild)

/-! ## Later phases -/

/-- Nothing that comes after registration changes the tables. -/
theorem update_tables (doc : Document) : doc.update.value.ids = doc.register.value.ids ∧
    doc.update.value.names = doc.register.value.names := by
  obtain ⟨grammar, hupdate⟩ := update_value doc
  have hedited := (derive_edited doc.register.value (doc.register.value.preorder.map (·.1))).trans
    (resolveAll_edited (doc.register.value.preorder.map (·.1)) _)
  rw [hupdate, hedited.rest]
  exact ⟨rfl, rfl⟩

end Document

end BinaryGrammar
