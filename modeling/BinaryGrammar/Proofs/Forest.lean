import BinaryGrammar.Proofs.Gaps

/-!
# The forest of a record

The elements of a document are a forest in an array. Those of the document of a record, read back
through their children, are the records that they come from, in shape, kinds, ids, names and
descriptions. An element and all that is inside it take up a range of numbers without a gap, with
the element itself at the end; one record starts where the one before it ends. So every number below
the one of padding is come to exactly once.

The invariant of the construction is `Laid`. It carries the range, as a list of records can only be
put together again when it is known where each of them ends.
-/

set_option autoImplicit false

namespace BinaryGrammar

/-! ## Records -/

namespace Record.Element

/-- The kind of a record. -/
def kind : Record.Element → Kind
  | struct .. => .struct
  | number .. => .number
  | string .. => .string
  | binary .. => .binary
  | offset .. => .offset
  | structRef .. => .structRef
  | grammarRef .. => .grammarRef
  | custom .. => .custom
  | script .. => .script

/-- What all records have. -/
def common : Record.Element → Common
  | struct c _ _ => c
  | number c _ => c
  | string c _ => c
  | binary c _ => c
  | offset c _ => c
  | structRef c _ => c
  | grammarRef c _ => c
  | custom c _ => c
  | script c _ => c

/-- Id, name and description of a record. -/
def ident (e : Record.Element) : Ident := ⟨e.common.id, e.common.name, e.common.description⟩

/-- The records inside a record. -/
def elements : Record.Element → List Record.Element
  | struct _ _ es => es
  | _ => []

end Record.Element

/-! ## Reading back -/

namespace Document

variable {doc doc' : Document}

mutual

/-- The element with number `i`, read back through its children, is a record; it and all that is
inside it have the numbers from `start` to `i`. -/
inductive Laid (doc : Document) : Nat → Record.Element → Nat → Prop where
  | element {start i : Nat} {e : Record.Element}
      (kind : (doc.element i).kind = e.kind) (ident : (doc.element i).ident = e.ident)
      (inside : LaidAll doc start e.elements (doc.element i).children i) : Laid doc start e i

/-- Elements, read back one after the other, are records; they and all that is inside them have the
numbers from `start` up to `stop`. -/
inductive LaidAll (doc : Document) : Nat → List Record.Element → List Nat → Nat → Prop where
  | nil (start : Nat) : LaidAll doc start [] [] start
  | cons {start i stop : Nat} {e : Record.Element} {es : List Record.Element} {is : List Nat}
      (first : Laid doc start e i) (rest : LaidAll doc (i + 1) es is stop) :
      LaidAll doc start (e :: es) (i :: is) stop

end

end Document

namespace Build

variable {a : Assembly} {doc : Document}

/-- The elements numbered so far are those of a document. -/
def Assembly.Within (a : Assembly) (doc : Document) : Prop :=
  ∀ (i : Nat) (e : Element), a.elements[i]? = some e → doc.element i = e

/-- What has been numbered before is there after one more element is numbered. -/
theorem Assembly.Within.of_push {e : Noted Element} (h : (a.push e).1.Within doc) :
    a.Within doc ∧ doc.element (a.push e).2 = e.value := by
  have hget (i : Nat) : (a.push e).1.elements[i]? =
      if i = a.elements.size then some e.value else a.elements[i]? := Array.getElem?_push
  constructor
  · intro i e' hi
    refine h i e' ?_
    have hlt : i < a.elements.size := by
      by_contra hi'
      rw [Array.getElem?_eq_none (Nat.le_of_not_lt hi')] at hi
      cases hi
    rw [hget, if_neg (Nat.ne_of_lt hlt)]
    exact hi
  · refine h _ _ ?_
    rw [hget]
    exact if_pos rfl

/-- A record that has been numbered after what is inside it. -/
theorem laid_push {start : Nat} {r : Record.Element} {e : Noted Element}
    (h : (a.push e).1.Within doc) (hkind : e.value.kind = r.kind) (hident : e.value.ident = r.ident)
    (hinside : doc.LaidAll start r.elements e.value.children a.elements.size) :
    doc.Laid start r (a.push e).2 := by
  have helement := h.of_push.2
  refine .element ?_ ?_ ?_
  · rw [helement]
    exact hkind
  · rw [helement]
    exact hident
  · rw [helement]
    exact hinside

/-- A record with nothing inside. -/
theorem laid_leaf {r : Record.Element} {e : Noted Element} (h : (a.push e).1.Within doc)
    (hkind : e.value.kind = r.kind) (hident : e.value.ident = r.ident)
    (hrecord : r.elements = []) (hchildren : e.value.children = []) :
    a.Within doc ∧ (a.push e).2 + 1 = (a.push e).1.elements.size ∧
      doc.Laid a.elements.size r (a.push e).2 := by
  refine ⟨h.of_push.1, (Array.size_push ..).symm, laid_push h hkind hident ?_⟩
  rw [hrecord, hchildren]
  exact .nil _

mutual

theorem addElement_laid : ∀ (e : Record.Element) {a : Assembly}, (addElement a e).1.Within doc →
    a.Within doc ∧ (addElement a e).2 + 1 = (addElement a e).1.elements.size ∧
      doc.Laid a.elements.size e (addElement a e).2
  | .struct c s elements, a, h => by
      have hinside := Assembly.Within.of_push h
      obtain ⟨hbefore, hlaid⟩ := addElements_laid elements hinside.1
      exact ⟨hbefore, (Array.size_push ..).symm,
        laid_push (r := .struct c s elements) h rfl rfl hlaid⟩
  | .number c n, _, h => laid_leaf (r := .number c n) h rfl rfl rfl rfl
  | .string c s, _, h => laid_leaf (r := .string c s) h rfl rfl rfl rfl
  | .binary c b, _, h => laid_leaf (r := .binary c b) h rfl rfl rfl rfl
  | .offset c o, _, h => laid_leaf (r := .offset c o) h rfl rfl rfl rfl
  | .structRef c r, _, h => laid_leaf (r := .structRef c r) h rfl rfl rfl rfl
  | .grammarRef c g, _, h => laid_leaf (r := .grammarRef c g) h rfl rfl rfl rfl
  | .custom c u, _, h => laid_leaf (r := .custom c u) h rfl rfl rfl rfl
  | .script c s, a, h =>
      laid_leaf (a := (a.pushScript (script s c.name)).1) (r := .script c s) h rfl rfl rfl rfl

theorem addElements_laid : ∀ (es : List Record.Element) {a : Assembly},
    (addElements a es).1.Within doc →
    a.Within doc ∧ doc.LaidAll a.elements.size es (addElements a es).2
      (addElements a es).1.elements.size
  | [], a, h => ⟨h, .nil _⟩
  | e :: es, a, h => by
      obtain ⟨hfirst, hrest⟩ := addElements_laid es h
      obtain ⟨hbefore, hnext, hlaid⟩ := addElement_laid e hfirst
      rw [← hnext] at hrest
      exact ⟨hbefore, .cons hlaid hrest⟩

end

end Build

namespace Document

variable {doc doc' : Document}

/-- The elements of an assembly are those of the document that is made from it. -/
theorem within_ofParts (version : String) (grammar : Grammar) (a : Build.Assembly) :
    a.Within (ofParts version grammar a.elements a.scripts) := by
  intro i e hi
  have hlt : i < a.elements.size := (Array.getElem?_eq_some_iff.mp hi).1
  unfold element ofParts
  dsimp only
  rw [Array.getD_eq_getD_getElem?, Array.getElem?_push, if_neg (Nat.ne_of_lt hlt), hi]
  rfl

theorem addScripts_elements : ∀ (ss : List Record.Script) (a : Build.Assembly),
    (a.addScripts ss).1.elements = a.elements
  | [], _ => rfl
  | s :: ss, a => addScripts_elements ss (a.pushScript (Build.script s "")).1

/-- **The elements of the document of a record are its records**, and with all that is inside them
they have the numbers below the one of padding. -/
theorem ofRecord_laid (r : Record.Document) :
    LaidAll (ofRecord r).value 0 r.grammar.elements (ofRecord r).value.grammar.elements
      (ofRecord r).value.padding := by
  have hlaid (a : Build.Assembly) (grammar : Grammar) (hempty : a.elements = #[]) :
      LaidAll (ofParts r.version grammar (Build.addElements a r.grammar.elements).1.elements
          (Build.addElements a r.grammar.elements).1.scripts) 0 r.grammar.elements
        (Build.addElements a r.grammar.elements).2
        (Build.addElements a r.grammar.elements).1.elements.size := by
    have h := (Build.addElements_laid (a := a) r.grammar.elements
      (within_ofParts r.version grammar _)).2
    rw [hempty] at h
    exact h
  exact hlaid _ _ (addScripts_elements r.grammar.scripts _)

mutual

/-- In pre-order an element with all that is inside it takes up its range. -/
theorem Laid.preorderFrom {start i : Nat} {e : Record.Element} : doc.Laid start e i →
    ∀ {depth : Nat} (parent : Option Nat), i < depth → start ≤ i ∧
      ((doc.preorderFrom depth parent i).map (·.1)).Perm (List.range' start (i + 1 - start))
  | .element _ _ inside, depth + 1, parent, hdepth => by
      obtain ⟨hle, hperm⟩ := inside.preorder (some i) (Nat.le_of_lt_succ hdepth)
      refine ⟨hle, ?_⟩
      -- the element comes first in pre-order and last in the range
      have hrange : List.range' start (i + 1 - start) = List.range' start (i - start) ++ [i] := by
        rw [Nat.succ_sub hle, List.range'_1_concat, Nat.add_sub_cancel' hle]
      rw [hrange]
      exact (hperm.cons i).trans (List.perm_append_singleton i _).symm

theorem LaidAll.preorder {start stop : Nat} {es : List Record.Element} {is : List Nat} :
    doc.LaidAll start es is stop → ∀ {depth : Nat} (parent : Option Nat), stop ≤ depth →
    start ≤ stop ∧
      ((is.flatMap fun i => doc.preorderFrom depth parent i).map (·.1)).Perm
        (List.range' start (stop - start))
  | .nil start, depth, parent, _ => by
      rw [Nat.sub_self]
      exact ⟨Nat.le_refl _, .nil⟩
  | .cons (i := i) first rest, depth, parent, hdepth => by
      obtain ⟨hnext, hrest⟩ := rest.preorder parent hdepth
      obtain ⟨hle, hfirst⟩ := first.preorderFrom parent (Nat.lt_of_lt_of_le hnext hdepth)
      refine ⟨by omega, ?_⟩
      have hrange : List.range' start (stop - start) =
          List.range' start (i + 1 - start) ++ List.range' (i + 1) (stop - (i + 1)) := by
        have hsplit : stop - start = (i + 1 - start) + (stop - (i + 1)) := by omega
        rw [hsplit, ← List.range'_append_1, Nat.add_sub_cancel' (by omega)]
      rw [hrange, List.flatMap_cons, List.map_append]
      exact hfirst.append hrest

end

/-- The elements of a document are a forest, and padding stands after it. -/
structure Forest (doc : Document) : Prop where
  numbered : doc.Numbered
  /-- Every number below the one of padding is come to exactly once. -/
  once : (doc.preorder.map (·.1)).Perm (List.range doc.padding)
  /-- Padding has the last number. -/
  last : doc.padding + 1 = doc.elements.size
  reserved : doc.Reserved

/-- **The elements of the document of a record are a forest.** -/
theorem ofRecord_forest (r : Record.Document) : (ofRecord r).value.Forest where
  numbered := ofRecord_numbered r
  once := by
    have hdepth : (ofRecord r).value.padding ≤ (ofRecord r).value.elements.size + 1 := by
      have hsize := (ofRecord_numbered r).size
      omega
    rw [List.range_eq_range']
    exact ((ofRecord_laid r).preorder none hdepth).2
  last := (Array.size_push ..).symm
  reserved := ofParts_reserved ..

/-! ## Parents in pre-order -/

/-- An entry of the pre-order is the element where it starts, or stands with the element that it is
inside of. -/
theorem child_of_mem_preorderFrom : ∀ {depth : Nat} {parent p : Option Nat} {i j : Nat},
    (j, p) ∈ doc.preorderFrom depth parent i →
    (j = i ∧ p = parent) ∨ ∃ k, p = some k ∧ j ∈ (doc.element k).children
  | depth + 1, parent, p, i, j, h => by
      unfold Document.preorderFrom at h
      rcases List.mem_cons.mp h with heq | h
      · cases heq
        exact Or.inl ⟨rfl, rfl⟩
      · obtain ⟨c, hc, h⟩ := List.mem_flatMap.mp h
        rcases child_of_mem_preorderFrom h with ⟨rfl, rfl⟩ | hinside
        · exact Or.inr ⟨i, rfl, hc⟩
        · exact Or.inr hinside

theorem child_of_mem_preorder {i j : Nat} (h : (i, some j) ∈ doc.preorder) :
    i ∈ (doc.element j).children := by
  obtain ⟨top, _, h⟩ := List.mem_flatMap.mp h
  rcases child_of_mem_preorderFrom h with ⟨_, hnone⟩ | ⟨k, hk, hinside⟩
  · cases hnone
  · cases hk
    exact hinside

theorem mem_preorder_of_top {i : Nat} (h : i ∈ doc.grammar.elements) : (i, none) ∈ doc.preorder :=
  List.mem_flatMap.mpr ⟨i, h, mem_preorderFrom doc (Nat.succ_pos _) none i⟩

namespace Forest

variable (h : doc.Forest)
include h

theorem sameShape (hshape : SameShape doc doc') : doc'.Forest where
  numbered := h.numbered.sameShape hshape
  once := by
    rw [preorder_congr hshape, hshape.padding]
    exact h.once
  last := by
    rw [hshape.padding, hshape.size]
    exact h.last
  reserved := hshape.reserved h.reserved

theorem nodup : (doc.preorder.map (·.1)).Nodup := h.once.nodup_iff.mpr List.nodup_range

theorem listed_iff (i : Nat) : doc.Listed i ↔ i < doc.padding := by
  unfold Listed
  rw [h.once.mem_iff, List.mem_range]

/-- Padding and what is not there have nothing inside. -/
theorem children_of_le {i : Nat} (hi : doc.padding ≤ i) : (doc.element i).children = [] := by
  rcases Nat.eq_or_lt_of_le hi with rfl | hlt
  · have hkind : (doc.element doc.padding).body.kind = .padding := h.reserved
    unfold Element.children
    split
    · rename_i body hbody
      rw [hbody] at hkind
      cases hkind
    · rfl
  · have hsize : doc.elements.size ≤ i := by
      rw [← h.last]
      exact hlt
    rw [BaseOrder.element_of_size_le hsize]
    rfl

/-- What is inside an element stands in the pre-order with it. -/
theorem mem_preorder_of_child {i j : Nat} (hchild : i ∈ (doc.element j).children) :
    (i, some j) ∈ doc.preorder := by
  have hj : j < doc.padding := by
    by_contra hj
    rw [h.children_of_le (Nat.le_of_not_lt hj)] at hchild
    cases hchild
  obtain ⟨top, p, htop, hmem⟩ := ((h.listed_iff j).mpr hj).inv
  have hdepth : top < doc.elements.size + 1 := by
    have hlt := h.numbered.top top htop
    have hsize := h.last
    omega
  exact List.mem_flatMap.mpr ⟨top, htop, preorderFrom_closed h.numbered _ hdepth hmem hchild⟩

end Forest

end Document

end BinaryGrammar
