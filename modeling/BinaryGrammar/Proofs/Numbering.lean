import BinaryGrammar.Proofs.Shape

/-!
# Numbers of elements

Elements are numbered so that those inside a structure come before it, and padding comes last. So
the elements of a grammar with all that is inside them, listed in pre-order, are closed: what is
inside an element of the list is in the list too. None of them is padding.
-/

set_option autoImplicit false

namespace BinaryGrammar

/-! ## Numbering -/

namespace Build

/-- In an assembly everything inside an element has a lower number, and nothing is padding. -/
def Assembly.Ordered (a : Assembly) : Prop :=
  ∀ (i : Nat) (e : Element), a.elements[i]? = some e →
    (∀ c ∈ e.children, c < i) ∧ e.kind ≠ .padding

variable {a : Assembly}

/-- An element that is numbered next. -/
theorem Assembly.Ordered.push (h : a.Ordered) {e : Noted Element}
    (hchildren : ∀ c ∈ e.value.children, c < a.elements.size) (hkind : e.value.kind ≠ .padding) :
    (a.push e).1.Ordered ∧ a.elements.size ≤ (a.push e).1.elements.size ∧
      (a.push e).2 < (a.push e).1.elements.size := by
  have hsize : (a.push e).1.elements.size = a.elements.size + 1 := Array.size_push ..
  refine ⟨?_, by omega, by rw [hsize]; exact Nat.lt_succ_self _⟩
  intro i e' he
  change (a.elements.push e.value)[i]? = some e' at he
  rw [Array.getElem?_push] at he
  split at he
  · rename_i hi
    cases he
    rw [hi]
    exact ⟨hchildren, hkind⟩
  · exact h i e' he

/-- A leaf has no elements inside. -/
theorem Assembly.Ordered.push_leaf (h : a.Ordered) {e : Noted Element}
    (hchildren : e.value.children = []) (hkind : e.value.kind ≠ .padding) :
    (a.push e).1.Ordered ∧ a.elements.size ≤ (a.push e).1.elements.size ∧
      (a.push e).2 < (a.push e).1.elements.size :=
  h.push (by rw [hchildren]; intro c hc; cases hc) hkind

mutual

theorem addElement_ordered : ∀ (e : Record.Element) {a : Assembly}, a.Ordered →
    (addElement a e).1.Ordered ∧ a.elements.size ≤ (addElement a e).1.elements.size ∧
      (addElement a e).2 < (addElement a e).1.elements.size
  | .struct c s elements, a, h => by
      obtain ⟨hordered, hsize, hchildren⟩ := addElements_ordered elements h
      have hpush := hordered.push (e := struct c s (addElements a elements).2) hchildren nofun
      exact ⟨hpush.1, Nat.le_trans hsize hpush.2.1, hpush.2.2⟩
  | .number c n, a, h => h.push_leaf (e := number c n) rfl nofun
  | .string c s, a, h => h.push_leaf (e := string c s) rfl nofun
  | .binary c b, a, h => h.push_leaf (e := binary c b) rfl nofun
  | .offset c o, a, h => h.push_leaf (e := offset c o) rfl nofun
  | .structRef c r, a, h => h.push_leaf (e := structRef c r) rfl nofun
  | .grammarRef c g, a, h => h.push_leaf (e := grammarRef c g) rfl nofun
  | .custom c u, a, h => h.push_leaf (e := custom c u) rfl nofun
  | .script c s, a, h => by
      have hscript : (a.pushScript (script s c.name)).1.Ordered := h
      exact hscript.push_leaf (e := { value := scriptElement c a.scripts.size }) rfl nofun

theorem addElements_ordered : ∀ (es : List Record.Element) {a : Assembly}, a.Ordered →
    (addElements a es).1.Ordered ∧ a.elements.size ≤ (addElements a es).1.elements.size ∧
      ∀ i ∈ (addElements a es).2, i < (addElements a es).1.elements.size
  | [], a, h => ⟨h, Nat.le_refl _, fun i hi => by cases hi⟩
  | e :: es, a, h => by
      obtain ⟨hfirst, hsize, hi⟩ := addElement_ordered e h
      obtain ⟨hrest, hsize', his⟩ := addElements_ordered es hfirst
      refine ⟨hrest, Nat.le_trans hsize hsize', fun i hmem => ?_⟩
      rcases List.mem_cons.mp hmem with hfirst | hmem
      · rw [hfirst]
        exact Nat.lt_of_lt_of_le hi hsize'
      · exact his i hmem

end

end Build

namespace Document

/-- In a document everything inside an element has a lower number, and padding comes after all
elements of the grammar. -/
structure Numbered (doc : Document) : Prop where
  below : ∀ i, ∀ c ∈ (doc.element i).children, c < i
  kind : ∀ i < doc.padding, (doc.element i).kind ≠ .padding
  top : ∀ i ∈ doc.grammar.elements, i < doc.padding
  size : doc.padding < doc.elements.size

theorem Numbered.sameShape {doc doc' : Document} (h : doc.Numbered) (hshape : SameShape doc doc') :
    doc'.Numbered where
  below := fun i => by rw [hshape.children]; exact h.below i
  kind := fun i => by rw [hshape.padding, hshape.kind]; exact h.kind i
  top := by rw [hshape.top, hshape.padding]; exact h.top
  size := by rw [hshape.padding, hshape.size]; exact h.size

theorem ofParts_numbered {version : String} {grammar : Grammar} {a : Build.Assembly}
    (h : a.Ordered) (htop : ∀ i ∈ grammar.elements, i < a.elements.size) :
    (ofParts version grammar a.elements a.scripts).Numbered := by
  have helement : ∀ i < a.elements.size,
      a.elements[i]? = some ((ofParts version grammar a.elements a.scripts).element i) := by
    intro i hi
    unfold element ofParts
    simp only [Array.getD_eq_getD_getElem?, Array.getElem?_push, if_neg (Nat.ne_of_lt hi),
      Array.getElem?_eq_getElem hi, Option.getD_some]
  refine ⟨?_, fun i hi => (h i _ (helement i hi)).2, htop, ?_⟩
  · intro i c hc
    by_cases hi : i < a.elements.size
    · exact (h i _ (helement i hi)).1 c hc
    · -- padding and what is not there have nothing inside
      have hnil : ((ofParts version grammar a.elements a.scripts).element i).children = [] := by
        unfold element ofParts
        simp only [Array.getD_eq_getD_getElem?, Array.getElem?_push]
        split
        · rfl
        · rw [Array.getElem?_eq_none (by omega)]
          rfl
      rw [hnil] at hc
      cases hc
  · exact Nat.lt_of_lt_of_eq (Nat.lt_succ_self _) (Array.size_push ..).symm

theorem addScripts_ordered : ∀ (ss : List Record.Script) {a : Build.Assembly}, a.Ordered →
    (a.addScripts ss).1.Ordered
  | [], _, h => h
  | s :: ss, a, h => by
      have hscript : (a.pushScript (Build.script s "")).1.Ordered := h
      exact addScripts_ordered ss hscript

/-- **In the document of a record elements are numbered from the inside.** -/
theorem ofRecord_numbered (r : Record.Document) : (ofRecord r).value.Numbered := by
  have hempty : ∀ notes, Build.Assembly.Ordered { notes } := by
    intro notes i e he
    simp at he
  obtain ⟨hordered, _, htop⟩ :=
    Build.addElements_ordered r.grammar.elements (addScripts_ordered r.grammar.scripts (hempty _))
  exact ofParts_numbered hordered htop

/-! ## Pre-order -/

variable {doc doc' : Document}

theorem preorderFrom_congr (h : SameShape doc doc') :
    ∀ (depth : Nat) (parent : Option Nat) (i : Nat),
    doc'.preorderFrom depth parent i = doc.preorderFrom depth parent i
  | 0, _, _ => rfl
  | depth + 1, parent, i => by
      unfold preorderFrom
      simp only [h.children, preorderFrom_congr h depth]

theorem preorder_congr (h : SameShape doc doc') : doc'.preorder = doc.preorder := by
  unfold preorder
  simp only [h.top, h.size, preorderFrom_congr h]

/-- What is inside an element, at any depth, has a number that is not higher. -/
theorem preorderFrom_le (h : doc.Numbered) : ∀ (depth : Nat) {parent : Option Nat} {i j : Nat}
    {p : Option Nat}, (j, p) ∈ doc.preorderFrom depth parent i → j ≤ i
  | 0, _, _, _, _, hj => by cases hj
  | depth + 1, parent, i, j, p, hj => by
      unfold preorderFrom at hj
      rcases List.mem_cons.mp hj with heq | hj
      · cases heq
        exact Nat.le_refl _
      · obtain ⟨c, hc, hj⟩ := List.mem_flatMap.mp hj
        have hci := h.below i c hc
        have hjc := preorderFrom_le h depth hj
        omega

theorem mem_preorderFrom (doc : Document) {depth : Nat} (hdepth : 0 < depth) (parent : Option Nat)
    (i : Nat) : (i, parent) ∈ doc.preorderFrom depth parent i := by
  cases depth with
  | zero => exact absurd hdepth (Nat.lt_irrefl 0)
  | succ depth =>
      unfold preorderFrom
      exact List.mem_cons_self

/-- A list that may go deep enough has everything that is inside its elements. -/
theorem preorderFrom_closed (h : doc.Numbered) : ∀ (depth : Nat) {parent : Option Nat} {i j c : Nat}
    {p : Option Nat}, i < depth → (j, p) ∈ doc.preorderFrom depth parent i →
    c ∈ (doc.element j).children → (c, some j) ∈ doc.preorderFrom depth parent i
  | 0, _, _, _, _, _, hdepth, _, _ => absurd hdepth (Nat.not_lt_zero _)
  -- what is inside has a lower number, so one level less is deep enough for it
  | depth + 1, parent, i, j, c, p, hdepth, hj, hc => by
      unfold preorderFrom at hj ⊢
      refine List.mem_cons_of_mem _ (List.mem_flatMap.mpr ?_)
      rcases List.mem_cons.mp hj with heq | hj
      · cases heq
        have hci := h.below i c hc
        exact ⟨c, hc, mem_preorderFrom doc (by omega) (some i) c⟩
      · obtain ⟨b, hb, hj⟩ := List.mem_flatMap.mp hj
        have hbi := h.below i b hb
        exact ⟨b, hb, preorderFrom_closed h depth (by omega) hj hc⟩

/-- An element of the grammar, or one inside such an element at any depth. -/
def Listed (doc : Document) (i : Nat) : Prop := i ∈ doc.preorder.map (·.1)

namespace Listed

theorem congr (h : SameShape doc doc') (i : Nat) : doc'.Listed i ↔ doc.Listed i := by
  unfold Listed
  rw [preorder_congr h]

theorem of_top {i : Nat} (hi : i ∈ doc.grammar.elements) : doc.Listed i := by
  have hmem := mem_preorderFrom doc (Nat.succ_pos doc.elements.size) none i
  exact List.mem_map.mpr ⟨(i, none), List.mem_flatMap.mpr ⟨i, hi, hmem⟩, rfl⟩

theorem inv {i : Nat} (hi : doc.Listed i) : ∃ top p, top ∈ doc.grammar.elements ∧
    (i, p) ∈ doc.preorderFrom (doc.elements.size + 1) none top := by
  obtain ⟨⟨j, p⟩, hj, hji⟩ := List.mem_map.mp hi
  obtain ⟨top, htop, hj⟩ := List.mem_flatMap.mp hj
  cases hji
  exact ⟨top, p, htop, hj⟩

variable (hdoc : doc.Numbered) {i c : Nat} (hi : doc.Listed i)
include hdoc hi

theorem child (hc : c ∈ (doc.element i).children) : doc.Listed c := by
  obtain ⟨top, p, htop, hi⟩ := hi.inv
  have hlt := hdoc.top top htop
  have hsize := hdoc.size
  have hmem := preorderFrom_closed hdoc _ (by omega) hi hc
  exact List.mem_map.mpr ⟨(c, some i), List.mem_flatMap.mpr ⟨top, htop, hmem⟩, rfl⟩

theorem lt_padding : i < doc.padding := by
  obtain ⟨top, p, htop, hi⟩ := hi.inv
  have hle := preorderFrom_le hdoc _ hi
  have hlt := hdoc.top top htop
  omega

theorem kind_ne_padding : (doc.element i).kind ≠ .padding := hdoc.kind i (hi.lt_padding hdoc)

theorem lt_size : i < doc.elements.size := Nat.lt_trans (hi.lt_padding hdoc) hdoc.size

end Listed

end Document

end BinaryGrammar
