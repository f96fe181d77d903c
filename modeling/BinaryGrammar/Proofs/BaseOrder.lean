import Mathlib
import BinaryGrammar.Proofs.Search

/-!
# The order of bases

The search for an order in which elements can be filled goes two ways at once: down to the children
of an element while the element has no mark, and to its base once it has one. On the way down it may
come back to an element that has no mark yet, through a child that derives from it. It ends all the
same. Between two marks it only goes to elements with lower numbers, and each mark is set once, so
that its depth is bounded by the square of the number of elements.

An element is done when its base is done, so the list of elements to fill has each of them after its
base, and no way from base to base leads back.

The main statement is `load_bases`: it holds of the document of every record, with problems or
without.
-/

set_option autoImplicit false

namespace BinaryGrammar

namespace Document

namespace BaseOrder

/-- The search of a visit, which gives nothing where it would go deeper than it may. So it ends
without a limit on its depth if it gives something with one. -/
def search : Nat → BaseOrder → Nat → Option BaseOrder
  | 0, _, _ => none
  | depth + 1, o, i =>
    if o.marks.contains i then some o
    else do
      let o ← (o.doc.element i).children.foldlM (search depth) o
      if o.marks.contains i then some o
      else
        let o := o.mark i .active
        let o ← match (o.doc.element i).base with
          | none => some o
          | some base =>
            if base = i ∨ o.marks[base]? = some Mark.active then
              some { o with
                notes := o.notes.push (.derivesCycle (o.doc.label i))
                doc := o.doc.setBase i none }
            else do
              let o ← search depth o base
              some { o with merges := o.merges.push i }
        some (o.mark i .done)

variable {o o' o₁ : BaseOrder} {i depth : Nat}

theorem getElem?_mark (o : BaseOrder) (i j : Nat) (m : Mark) :
    (o.mark i m).marks[j]? = if i = j then some m else o.marks[j]? := by
  unfold mark
  simp only [Std.HashMap.getElem?_insert, beq_iff_eq]

theorem contains_iff : o.marks.contains i = true ↔ o.marks[i]? ≠ none := by
  rw [Std.HashMap.contains_eq_isSome_getElem?, Option.isSome_iff_ne_none]

theorem base_setBase_none (doc : Document) (i j : Nat) :
    ((doc.setBase i none).element j).base = if i = j then none else (doc.element j).base := by
  unfold setBase
  rw [element_modify]
  by_cases hij : i = j
  · rw [if_pos hij]
    by_cases hj : j < doc.elements.size
    · rw [if_pos ⟨hij, hj⟩]
      unfold Element.base
      cases (doc.element j).derives <;> rfl
    · rw [if_neg fun h => hj h.2]
      unfold element
      rw [Array.getD_eq_getD_getElem?, Array.getElem?_eq_none (Nat.le_of_not_lt hj)]
      rfl
  · rw [if_neg hij, if_neg fun h => hij h.1]

/-! ## Later states -/

/-- A later state of a search: elements that had no mark are done, and some of them have lost the
link to their base. -/
structure Extends (o o' : BaseOrder) : Prop where
  doc : Edited o.doc o'.doc
  mark : ∀ j : Nat, o'.marks[j]? = o.marks[j]? ∨
    o.marks[j]? = none ∧ o'.marks[j]? = some Mark.done
  base : ∀ j : Nat, (o'.doc.element j).base = (o.doc.element j).base ∨
    o.marks[j]? = none ∧ (o'.doc.element j).base = none

namespace Extends

theorem refl (o : BaseOrder) : Extends o o := ⟨.refl _, fun _ => Or.inl rfl, fun _ => Or.inl rfl⟩

/-- What has a mark keeps it. -/
theorem keeps (h : Extends o o') {j : Nat} {m : Mark} (hj : o.marks[j]? = some m) :
    o'.marks[j]? = some m := by
  rcases h.mark j with hsame | ⟨hnone, _⟩
  · exact hsame.trans hj
  · cases hnone.symm.trans hj

/-- What has no mark had none before. -/
theorem unmarked (h : Extends o o') {j : Nat} (hj : o'.marks[j]? = none) : o.marks[j]? = none := by
  rcases h.mark j with hsame | ⟨hnone, _⟩
  · exact hsame.symm.trans hj
  · exact hnone

/-- What has a mark keeps its base. -/
theorem keeps_base (h : Extends o o') {j : Nat} {m : Mark} (hj : o.marks[j]? = some m) :
    (o'.doc.element j).base = (o.doc.element j).base := by
  rcases h.base j with hsame | ⟨hnone, _⟩
  · exact hsame
  · cases hnone.symm.trans hj

/-- What is active was so before. -/
theorem active (h : Extends o o') {j : Nat} (hj : o'.marks[j]? = some Mark.active) :
    o.marks[j]? = some Mark.active := by
  rcases h.mark j with hsame | ⟨_, hdone⟩
  · exact hsame.symm.trans hj
  · cases hdone.symm.trans hj

theorem trans (h : Extends o o₁) (h' : Extends o₁ o') : Extends o o' where
  doc := h.doc.trans h'.doc
  mark := fun j => by
    rcases h'.mark j with hsame | ⟨hnone, hdone⟩
    · rw [hsame]
      exact h.mark j
    · exact Or.inr ⟨h.unmarked hnone, hdone⟩
  base := fun j => by
    rcases h'.base j with hsame | ⟨hnone, hcut⟩
    · rw [hsame]
      exact h.base j
    · exact Or.inr ⟨h.unmarked hnone, hcut⟩

/-- A visit that goes on after its element has been marked ends with the element done; the link of
the element itself may have been cut meanwhile. -/
theorem close (hnone : o.marks[i]? = none) (h : Extends (o.mark i .active) o₁) {doc : Document}
    (hdoc : Edited o₁.doc doc) {merges : Array Nat} {notes : Array Diagnostic}
    (hbase : ∀ j, (doc.element j).base = (o₁.doc.element j).base ∨
      j = i ∧ (doc.element j).base = none) :
    Extends o (BaseOrder.mark { o₁ with doc, merges, notes } i .done) where
  doc := h.doc.trans hdoc
  mark := fun j => by
    rw [getElem?_mark]
    by_cases hij : i = j
    · rw [if_pos hij, ← hij]
      exact Or.inr ⟨hnone, rfl⟩
    · rw [if_neg hij]
      have hmark := h.mark j
      rwa [getElem?_mark, if_neg hij] at hmark
  base := fun j => by
    rcases hbase j with hsame | ⟨rfl, hcut⟩
    · have hj := h.base j
      rw [getElem?_mark] at hj
      rcases hj with hj | ⟨hnone, hcut⟩
      · exact Or.inl (hsame.trans hj)
      · split at hnone
        · cases hnone
        · exact Or.inr ⟨hnone, hsame.trans hcut⟩
    · exact Or.inr ⟨hnone, hcut⟩

end Extends

/-! ## Bases first -/

/-- Between the visits of a search the elements that are done and have a base are listed once, each
after its base, and the bases of what is done are done. -/
structure Ordered (o : BaseOrder) : Prop where
  listed : ∀ j, j ∈ o.merges.toList ↔
    o.marks[j]? = some Mark.done ∧ (o.doc.element j).base ≠ none
  once : o.merges.toList.Nodup
  first : ∀ {l l' : List Nat} {j b : Nat}, o.merges.toList = l ++ j :: l' →
    (o.doc.element j).base = some b → (o.doc.element b).base ≠ none → b ∈ l
  done : ∀ {j b : Nat}, o.marks[j]? = some Mark.done → (o.doc.element j).base = some b →
    o.marks[b]? = some Mark.done

namespace Ordered

theorem empty (doc : Document) : Ordered { doc } where
  listed := fun j => by
    have hnone : ({} : Std.HashMap Nat Mark)[j]? = none := Std.HashMap.getElem?_empty
    exact ⟨fun h => (List.not_mem_nil h).elim, fun h => nomatch hnone.symm.trans h.1⟩
  once := List.nodup_nil
  first := fun {l l' j b} h => by
    have hmem : j ∈ l ++ j :: l' := List.mem_append_right _ List.mem_cons_self
    rw [← h] at hmem
    cases hmem
  done := fun {j b} h => by
    have hnone : ({} : Std.HashMap Nat Mark)[j]? = none := Std.HashMap.getElem?_empty
    cases hnone.symm.trans h

variable (h : o.Ordered)
include h

/-- What is not done is not the base of what is done. -/
theorem base_ne {j : Nat} (hi : o.marks[i]? ≠ some Mark.done) (hj : o.marks[j]? = some Mark.done) :
    (o.doc.element j).base ≠ some i := fun hbase => hi (h.done hj hbase)

/-- Marking an element as active changes nothing for the elements that are done. -/
theorem activate (hi : o.marks[i]? = none) : (o.mark i .active).Ordered := by
  have hmark (j : Nat) : (o.mark i .active).marks[j]? = some Mark.done ↔
      o.marks[j]? = some Mark.done := by
    rw [getElem?_mark]
    by_cases hij : i = j
    · rw [if_pos hij, ← hij, hi]
      exact ⟨nofun, nofun⟩
    · rw [if_neg hij]
  refine ⟨fun j => (h.listed j).trans (and_congr_left' (hmark j).symm), h.once, h.first, ?_⟩
  intro j b hj hb
  exact (hmark b).mpr (h.done ((hmark j).mp hj) hb)

/-- An element without a base, or whose link is cut, is done and not listed. -/
theorem finish (hi : o.marks[i]? = some Mark.active) {doc : Document}
    {notes : Array Diagnostic}
    (hbase : ∀ j, (doc.element j).base = if i = j then none else (o.doc.element j).base) :
    (mark { o with doc, notes } i .done).Ordered := by
  have hactive : o.marks[i]? ≠ some Mark.done := by rw [hi]; exact nofun
  have hother {j : Nat} (hij : i ≠ j) : (doc.element j).base = (o.doc.element j).base :=
    (hbase j).trans (if_neg hij)
  have hlisted (j : Nat) (hj : j ∈ o.merges.toList) : i ≠ j := by
    rintro rfl
    exact hactive ((h.listed i).mp hj).1
  refine ⟨fun j => ?_, h.once, ?_, ?_⟩
  · rw [getElem?_mark]
    by_cases hij : i = j
    · subst hij
      exact ⟨fun hj => absurd rfl (hlisted i hj),
        fun hj => absurd ((hbase i).trans (if_pos rfl)) hj.2⟩
    · rw [if_neg hij]
      exact (h.listed j).trans (by rw [← hother hij]; rfl)
  · intro l l' j b hl hj hb
    have hmem : j ∈ o.merges.toList := by
      rw [show o.merges.toList = l ++ j :: l' from hl]
      exact List.mem_append_right _ List.mem_cons_self
    have hj' := (hother (hlisted j hmem)).symm.trans hj
    have hib : i ≠ b := by
      rintro rfl
      exact h.base_ne hactive ((h.listed j).mp hmem).1 hj'
    exact h.first hl hj' (by rw [← hother hib]; exact hb)
  · intro j b hj hb
    rw [getElem?_mark] at hj ⊢
    split at hj
    · rename_i hij
      cases ((hbase j).trans (if_pos hij)).symm.trans hb
    · rename_i hij
      have hb' := (hother hij).symm.trans hb
      have hib : i ≠ b := by
        rintro rfl
        exact h.base_ne hactive hj hb'
      rw [if_neg hib]
      exact h.done hj hb'

/-- An element whose base is done is listed last. -/
theorem push {base : Nat} (hi : o.marks[i]? = some Mark.active)
    (hbase : (o.doc.element i).base = some base) (hdone : o.marks[base]? = some Mark.done) :
    (mark { o with merges := o.merges.push i } i .done).Ordered := by
  have hactive : o.marks[i]? ≠ some Mark.done := by rw [hi]; exact nofun
  have hfresh : i ∉ o.merges.toList := fun hmem => hactive ((h.listed i).mp hmem).1
  have hmerges : (mark { o with merges := o.merges.push i } i .done).merges.toList =
      o.merges.toList ++ [i] := Array.toList_push ..
  refine ⟨fun j => ?_, ?_, ?_, ?_⟩
  · rw [getElem?_mark, hmerges, List.mem_append, List.mem_singleton]
    by_cases hij : i = j
    · subst hij
      rw [if_pos rfl]
      exact ⟨fun _ => ⟨rfl, by intro hnone; cases hnone.symm.trans hbase⟩, fun _ => Or.inr rfl⟩
    · rw [if_neg hij]
      refine Iff.trans ⟨fun hj => hj.resolve_right fun h => hij h.symm, Or.inl⟩ (h.listed j)
  · rw [hmerges]
    exact List.nodup_append.mpr ⟨h.once, List.pairwise_singleton _ i, fun a ha b hb => by
      rw [List.mem_singleton.mp hb]
      rintro rfl
      exact hfresh ha⟩
  · intro l l' j b hl hj hb
    rw [hmerges] at hl
    rcases List.eq_nil_or_concat l' with rfl | ⟨init, last, rfl⟩
    · -- the new entry
      obtain ⟨hbefore, hlast⟩ := List.append_inj' hl rfl
      cases hlast
      cases hbase.symm.trans hj
      rw [← hbefore]
      exact (h.listed base).mpr ⟨hdone, hb⟩
    · have hcut : o.merges.toList ++ [i] = (l ++ j :: init) ++ [last] := by
        rw [hl, List.append_assoc, List.cons_append, List.concat_eq_append]
      exact h.first (List.append_inj' hcut rfl).1 hj hb
  · intro j b hj hb
    rw [getElem?_mark] at hj ⊢
    split
    · rfl
    · split at hj
      · rename_i hij
        subst hij
        cases hbase.symm.trans hb
        exact hdone
      · exact h.done hj hb

end Ordered

/-! ## Visits -/

/-- What a visit of an element does within its depth. Unless the element was being visited already
it is done then. -/
structure Visits (depth : Nat) (o : BaseOrder) (i : Nat) (o' : BaseOrder) : Prop where
  search : BaseOrder.search depth o i = some o'
  later : Extends o o'
  done : o.marks[i]? ≠ some Mark.active → o'.marks[i]? = some Mark.done
  ordered : o.Ordered → o'.Ordered

/-- What later states keep. -/
def Lasting (P : BaseOrder → Prop) : Prop := ∀ {o o' : BaseOrder}, Extends o o' → P o → P o'

/-- Visits one after another do for each element what one does. -/
theorem foldl_visits {P : BaseOrder → Prop} (hP : Lasting P) {f : BaseOrder → Nat → BaseOrder} :
    ∀ (is : List Nat) {o : BaseOrder}, (∀ {o : BaseOrder}, P o → ∀ i ∈ is,
      Visits depth o i (f o i)) →
    P o → is.foldlM (BaseOrder.search depth) o = some (is.foldl f o) ∧ Extends o (is.foldl f o) ∧
      (o.Ordered → (is.foldl f o).Ordered) ∧
      ∀ i ∈ is, o.marks[i]? ≠ some Mark.active → (is.foldl f o).marks[i]? = some Mark.done
  | [], o, _, _ => ⟨rfl, .refl o, id, fun i hi => by cases hi⟩
  | i :: is, o, hf, hs => by
      have hfirst := hf hs i List.mem_cons_self
      obtain ⟨hsearch, hrest, hordered, hdone⟩ := foldl_visits hP is
        (fun hs j hj => hf hs j (List.mem_cons_of_mem _ hj)) (hP hfirst.later hs)
      refine ⟨?_, hfirst.later.trans hrest, fun h => hordered (hfirst.ordered h), ?_⟩
      · rw [List.foldlM_cons, hfirst.search]
        exact hsearch
      · intro j hj hactive
        rcases List.mem_cons.mp hj with rfl | hj
        · exact hrest.keeps (hfirst.done hactive)
        · exact hdone j hj fun h => hactive (hfirst.later.active h)

/-- All elements that have no mark are in a list, which tells how many there can be. -/
def UnmarkedIn (n : Nat) (o : BaseOrder) (list : List Nat) : Prop :=
  ∀ j < n, o.marks[j]? = none → j ∈ list

theorem UnmarkedIn.lasting (n : Nat) (list : List Nat) : Lasting (UnmarkedIn n · list) :=
  fun h ho j hj hnone => ho j hj (h.unmarked hnone)

/-- Marking an element takes it from the list. -/
theorem UnmarkedIn.mark {n : Nat} {list : List Nat} {m : Mark} (h : o.UnmarkedIn n list) :
    UnmarkedIn n (o.mark i m) (list.erase i) := by
  intro j hj hnone
  rw [getElem?_mark] at hnone
  split at hnone
  · cases hnone
  · rename_i hij
    exact (List.mem_erase_of_ne fun h => hij h.symm).mpr (h j hj hnone)

/-- The document of a search has so many elements, and they are numbered. -/
def Holds (n : Nat) (o : BaseOrder) : Prop := o.doc.Numbered ∧ o.doc.elements.size = n

theorem Holds.lasting (n : Nat) : Lasting (Holds n) :=
  fun h ho => ⟨ho.1.sameShape h.doc.sameShape, h.doc.size.trans ho.2⟩

/-- What is not an element of the document has no children and no base. -/
theorem element_of_size_le {doc : Document} (hi : doc.elements.size ≤ i) :
    doc.element i = default := by
  unfold element
  rw [Array.getD_eq_getD_getElem?, Array.getElem?_eq_none hi]
  rfl

/-- The visit of an element whose children have been visited and that has no mark yet. -/
def enter (depth : Nat) (o : BaseOrder) (i : Nat) : BaseOrder :=
  let o := o.mark i .active
  let o := match (o.doc.element i).base with
    | none => o
    | some base =>
      if base = i ∨ o.marks[base]? = some Mark.active then
        { o with
          notes := o.notes.push (.derivesCycle (o.doc.label i))
          doc := o.doc.setBase i none }
      else
        let o := visit depth o base
        { o with merges := o.merges.push i }
  o.mark i .done

theorem visit_unmarked (h : o.marks[i]? = none) :
    visit (depth + 1) o i =
      let o := (o.doc.element i).children.foldl (visit depth) o
      if o.marks.contains i then o else enter depth o i := by
  unfold visit
  rw [if_neg fun hmem => contains_iff.mp hmem h]
  rfl

/-- Marked elements are not visited again. -/
theorem visits_marked (h : o.marks[i]? ≠ none) : Visits (depth + 1) o i o where
  search := by
    rw [BaseOrder.search, if_pos (contains_iff.mpr h)]
  later := .refl o
  done := fun hactive => by
    obtain ⟨m, hm⟩ := Option.ne_none_iff_exists'.mp h
    cases m with
    | active => exact absurd hm hactive
    | done => exact hm
  ordered := id

/-- An element that has been marked as active is done in the end. -/
theorem enter_visits (hi : o.marks[i]? = none)
    (hchildren : (o₁.doc.element i).children.foldlM (BaseOrder.search depth) o₁ = some o)
    (hlater : Extends o₁ o) (hordered : o₁.Ordered → o.Ordered)
    (hvisit : ∀ base, (o.doc.element i).base = some base →
      Visits depth (o.mark i .active) base (visit depth (o.mark i .active) base)) :
    Visits (depth + 1) o₁ i (enter depth o i) := by
  have hactive : (o.mark i .active).marks[i]? = some Mark.active := by
    rw [getElem?_mark, if_pos rfl]
  have hsearch := BaseOrder.search.eq_2 o₁ i depth
  rw [if_neg fun h => contains_iff.mp h (hlater.unmarked hi), hchildren] at hsearch
  simp only [Option.bind_eq_bind, Option.bind_some] at hsearch
  rw [if_neg fun h => contains_iff.mp h hi] at hsearch
  unfold enter
  dsimp only at hsearch ⊢
  have hdone (o₂ : BaseOrder) : (o₂.mark i .done).marks[i]? = some Mark.done := by
    rw [getElem?_mark, if_pos rfl]
  cases hbase : ((o.mark i .active).doc.element i).base with
  | none =>
      simp only [hbase] at hsearch ⊢
      refine ⟨hsearch, ?_, fun _ => hdone _, fun h => ?_⟩
      · exact hlater.trans (.close hi (.refl _) (.refl _) fun j => Or.inl rfl)
      · refine ((hordered h).activate hi).finish hactive fun j => ?_
        split
        · rename_i hij
          rw [← hij]
          exact hbase
        · rfl
  | some base =>
      simp only [hbase] at hsearch ⊢
      split at hsearch
      · -- the link closes a circle and is cut
        rename_i hcircle
        rw [if_pos hcircle]
        refine ⟨hsearch, ?_, fun _ => hdone _, fun h => ?_⟩
        · refine hlater.trans (.close hi (.refl _) (setBase_edited _ i none) fun j => ?_)
          rw [base_setBase_none]
          split
          · rename_i hij
            exact Or.inr ⟨hij.symm, rfl⟩
          · exact Or.inl rfl
        · exact ((hordered h).activate hi).finish hactive (base_setBase_none _ i)
      · rename_i hcircle
        rw [if_neg hcircle]
        have hnext := hvisit base hbase
        have hnotActive := fun h => hcircle (Or.inr h)
        rw [hnext.search] at hsearch
        refine ⟨hsearch, ?_, fun _ => hdone _, fun h => ?_⟩
        · exact hlater.trans (.close hi hnext.later (.refl _) fun j => Or.inl rfl)
        · refine (hnext.ordered ((hordered h).activate hi)).push (hnext.later.keeps hactive) ?_
            (hnext.done hnotActive)
          exact (hnext.later.keeps_base hactive).trans hbase

/-- **A visit ends.** The children of an element have lower numbers, and an element leaves the list
of those without a mark before its base is visited. -/
theorem visit_visits {n : Nat} (depth : Nat) : ∀ {list : List Nat} {o : BaseOrder} {i : Nat},
    o.Holds n → o.UnmarkedIn n list → list.length * (n + 1) + min i n < depth →
    Visits depth o i (visit depth o i) := by
  -- the measure is lexicographic: first the elements without a mark, then the number of the element
  induction depth with
  | zero =>
      intro list o i _ _ hdepth
      exact absurd hdepth (Nat.not_lt_zero _)
  | succ depth ih =>
      intro list o i ho hlist hdepth
      by_cases hi : o.marks[i]? = none
      · rw [visit_unmarked hi]
        have hchildren : ∀ {o₁ : BaseOrder}, o₁.Holds n ∧ o₁.UnmarkedIn n list →
            ∀ c ∈ (o.doc.element i).children, Visits depth o₁ c (visit depth o₁ c) := by
          intro o₁ ho₁ c hc
          refine ih ho₁.1 ho₁.2 ?_
          have hlt := ho.1.below i c hc
          by_cases hin : i < n
          · omega
          · rw [element_of_size_le (by rw [ho.2]; omega)] at hc
            cases hc
        obtain ⟨hsearch, hlater, hordered, _⟩ := foldl_visits
          (fun h ho => ⟨Holds.lasting n h ho.1, UnmarkedIn.lasting n list h ho.2⟩)
          _ hchildren ⟨ho, hlist⟩
        generalize (o.doc.element i).children.foldl (visit depth) o = o₁ at *
        dsimp only
        split
        · -- a child has led back to the element, which has been visited meanwhile
          rename_i hmarked
          have hmarked := contains_iff.mp hmarked
          refine ⟨?_, hlater, fun _ => ?_, hordered⟩
          · rw [BaseOrder.search, if_neg fun h => contains_iff.mp h hi, hsearch]
            exact if_pos (contains_iff.mpr hmarked)
          · exact ((hlater.mark i).resolve_left fun h => hmarked (h.trans hi)).2
        · rename_i hmarked
          have hnone : o₁.marks[i]? = none :=
            Classical.not_not.mp fun h => hmarked (contains_iff.mpr h)
          refine enter_visits hnone hsearch hlater hordered fun base hbase => ?_
          have ho₁ := Holds.lasting n hlater ho
          have hin : i < n := by
            refine Nat.lt_of_not_le fun hin => ?_
            rw [element_of_size_le (by rw [ho₁.2]; exact hin)] at hbase
            cases hbase
          have hlist₁ := UnmarkedIn.lasting n list hlater hlist
          refine ih ho₁ hlist₁.mark ?_
          have hmem := hlist i hin hi
          have hlength := List.length_pos_of_mem hmem
          rw [List.length_erase_of_mem hmem]
          obtain ⟨k, hk⟩ : ∃ k, list.length = k + 1 := ⟨list.length - 1, by omega⟩
          rw [hk, Nat.add_mul, Nat.one_mul] at hdepth
          rw [hk, Nat.add_sub_cancel]
          omega
      · have hsame : visit (depth + 1) o i = o := by
          unfold visit
          rw [if_pos (contains_iff.mpr hi)]
        rw [hsame]
        exact visits_marked hi

/-- The depth that a document allows is enough for each of its elements. -/
theorem visits_of_numbered (ho : o.doc.Numbered) (i : Nat) :
    Visits o.doc.orderingDepth o i (visit o.doc.orderingDepth o i) := by
  have hlist : o.UnmarkedIn o.doc.elements.size (List.range o.doc.elements.size) :=
    fun j hj _ => List.mem_range.mpr hj
  refine visit_visits _ ⟨ho, rfl⟩ hlist ?_
  rw [List.length_range]
  unfold orderingDepth
  generalize o.doc.elements.size = n
  have hmin : min i n ≤ n := Nat.min_le_right i n
  have hsquare : (n + 2) * (n + 2) = n * (n + 1) + (3 * n + 4) := by
    simp only [Nat.add_mul, Nat.mul_add]
    omega
  omega

/-- **In a list of elements to fill each comes after its base.** -/
theorem Ordered.idxOf_lt (h : o.Ordered) {e b : Nat} (he : (o.doc.element e).base = some b)
    (hdone : o.marks[e]? = some Mark.done) (hb : (o.doc.element b).base ≠ none) :
    o.merges.toList.idxOf b < o.merges.toList.idxOf e := by
  have hmem : e ∈ o.merges.toList := (h.listed e).mpr ⟨hdone, by rw [he]; exact nofun⟩
  obtain ⟨l, l', hsplit, hfresh⟩ := List.eq_append_cons_of_mem hmem
  have hbefore := h.first hsplit he hb
  rw [hsplit, List.idxOf_append_of_mem hbefore, List.idxOf_append_of_notMem hfresh,
    List.idxOf_cons_self, Nat.add_zero]
  exact List.idxOf_lt_length_of_mem hbefore

/-- When all elements with a base are done, no way from base to base goes on forever. -/
theorem Ordered.wellFounded (h : o.Ordered)
    (hdone : ∀ e, (o.doc.element e).base ≠ none → o.marks[e]? = some Mark.done) :
    WellFounded fun b e => (o.doc.element e).base = some b := by
  -- the place in the list, with the elements that have no base before it
  let rank (e : Nat) : Nat :=
    if (o.doc.element e).base = none then 0 else o.merges.toList.idxOf e + 1
  refine Subrelation.wf (r := InvImage (· < ·) rank) (fun {b e} he => ?_)
    (InvImage.wf rank Nat.lt_wfRel.wf)
  have hbase : (o.doc.element e).base ≠ none := by rw [he]; exact nofun
  change rank b < rank e
  unfold rank
  rw [if_neg hbase]
  split
  · exact Nat.succ_pos _
  · rename_i hb
    exact Nat.succ_lt_succ (h.idxOf_lt he (hdone e hbase) hb)

end BaseOrder

/-! ## Links to bases while a document is loaded -/

variable {doc doc' doc'' : Document}

/-- One element derives from another. -/
def DerivesFrom (doc : Document) (e b : Nat) : Prop := (doc.element e).base = some b

/-- Links to bases may have been cut, and nothing else has happened to them. -/
def Cuts (doc doc' : Document) : Prop :=
  ∀ j, (doc'.element j).base = (doc.element j).base ∨ (doc'.element j).base = none

namespace Cuts

theorem refl (doc : Document) : Cuts doc doc := fun _ => Or.inl rfl

theorem trans (h : Cuts doc doc') (h' : Cuts doc' doc'') : Cuts doc doc'' := fun j => by
  rcases h' j with hsame | hcut
  · rw [hsame]
    exact h j
  · exact Or.inr hcut

theorem derives (h : Cuts doc doc') {e b : Nat} (he : doc'.DerivesFrom e b) :
    doc.DerivesFrom e b := by
  rcases h e with hsame | hcut
  · exact hsame.symm.trans he
  · cases hcut.symm.trans he

/-- A change to one element that leaves its link alone. -/
theorem modify {i : Nat} {f : Element → Element} (hf : ∀ e, (f e).base = e.base) :
    Cuts doc (doc.modify i f) := fun j => by
  rw [element_modify]
  split
  · exact Or.inl (hf _)
  · exact Or.inl rfl

end Cuts

theorem fillFrom_base (own base : Element) : (own.fillFrom base).base = own.base := by
  unfold Element.fillFrom
  split <;> rfl

theorem setBase_cuts (doc : Document) (i : Nat) : Cuts doc (doc.setBase i none) := fun j => by
  rw [BaseOrder.base_setBase_none]
  split
  · exact Or.inr rfl
  · exact Or.inl rfl

theorem fill_cuts : ∀ (depth : Nat) (doc : Document) (target source : Nat),
    Cuts doc (doc.fill depth target source)
  | 0, doc, _, _ => .refl doc
  | depth + 1, doc, target, source => by
      unfold fill
      split
      · exact .refl doc
      · have hpairs : ∀ (ps : List (Nat × Nat)) (doc : Document),
            Cuts doc (ps.foldl (fun doc p => fill doc depth p.1 p.2) doc) := by
          intro ps
          induction ps with
          | nil => exact .refl
          | cons p ps ih => exact fun doc => (fill_cuts depth doc p.1 p.2).trans (ih _)
        exact (Cuts.modify fun e => fillFrom_base e _).trans (hpairs _ _)

theorem fillFromBase_cuts (doc : Document) (i : Nat) : Cuts doc (doc.fillFromBase i).value := by
  unfold fillFromBase
  split
  · exact .refl doc
  · unfold extend
    split
    · rename_i hextend
      split at hextend
      · cases hextend
        exact .refl doc
      · split at hextend
        · cases hextend
        · cases hextend
          exact fill_cuts _ doc i _
    · exact setBase_cuts doc i

theorem fillAll_cuts : ∀ (is : List Nat) (doc : Document), Cuts doc (fillAll doc is).value
  | [], doc => .refl doc
  | i :: is, doc => (fillFromBase_cuts doc i).trans (fillAll_cuts is _)

theorem resolveAll_cuts : ∀ (is : List Nat) (doc : Document), Cuts doc (resolveAll doc is).value
  | [], doc => .refl doc
  | i :: is, doc => by
      refine Cuts.trans ?_ (resolveAll_cuts is _)
      exact .modify fun _ => rfl

/-- No element has been linked to a base yet. -/
def Unlinked (doc : Document) : Prop := ∀ j, (doc.element j).base = none

theorem Unlinked.congr (h : doc.Unlinked) (helements : doc'.elements = doc.elements) :
    doc'.Unlinked := by
  unfold Unlinked element at h ⊢
  rw [helements]
  exact h

theorem registerScript_elements (doc : Document) (i : Nat) :
    (doc.registerScript i).value.elements = doc.elements := by
  unfold registerScript
  dsimp only
  split
  · rfl
  · split <;> rfl

theorem registerId_elements (doc : Document) (i : Nat) :
    (doc.registerId i).value.elements = doc.elements := by
  unfold registerId
  dsimp only
  split
  · rfl
  · split <;> rfl

theorem registerName_elements (doc : Document) (i : Nat) :
    (doc.registerName i).elements = doc.elements := by
  unfold registerName
  dsimp only
  split <;> rfl

theorem registerInlineScript_elements (doc : Document) (i : Nat) :
    (doc.registerInlineScript i).value.elements = doc.elements := by
  unfold registerInlineScript
  split
  · exact registerScript_elements doc _
  · rfl

/-- Registering an element changes its parent and nothing else about elements. -/
theorem registerElement_elements (doc : Document) (entry : Nat × Option Nat) :
    (doc.registerElement entry).value.elements =
      (doc.modify entry.1 fun e => { e with parent := entry.2 }).elements := by
  unfold registerElement
  rw [Noted.value_bind, registerInlineScript_elements, registerName_elements,
    registerId_elements]

theorem register_unlinked (h : doc.Unlinked) : doc.register.value.Unlinked := by
  have hcleared : Unlinked { doc with ids := {}, names := {}, scriptNames := {} } := h.congr rfl
  unfold register
  rw [Noted.value_bind]
  refine registerAll_invariant (P := Unlinked) _ ?_ (registerAll_invariant (P := Unlinked) _
    (fun doc i _ h => h.congr (registerScript_elements doc i)) hcleared)
  intro doc entry _ h
  have hparent : Cuts doc (doc.modify entry.1 fun e => { e with parent := entry.2 }) :=
    .modify fun _ => rfl
  exact Unlinked.congr (fun j => (hparent j).elim (fun hsame => hsame.trans (h j)) id)
    (registerElement_elements doc entry)

/-- Only elements whose bases are looked up get one. -/
theorem linkBases_linked : ∀ (is : List Nat) {doc : Document} {j : Nat},
    ((linkBases doc is).value.element j).base ≠ none → j ∈ is ∨ (doc.element j).base ≠ none
  | [], _, _, h => Or.inr h
  | i :: is, doc, j, h => by
      rcases linkBases_linked is h with hmem | hbase
      · exact Or.inl (List.mem_cons_of_mem _ hmem)
      · by_cases hij : i = j
        · exact Or.inl (List.mem_cons.mpr (Or.inl hij.symm))
        · right
          have hother (target : Option Nat) :
              ((doc.setBase i target).element j) = doc.element j := by
            unfold setBase
            rw [element_modify, if_neg fun h => hij h.1]
          unfold linkBase at hbase
          split at hbase
          · exact hbase
          · split at hbase
            · rwa [hother] at hbase
            · rwa [hother] at hbase

end Document

/-! ## Records -/

namespace Build

/-- No element of an assembly is linked. -/
def Assembly.Unlinked (a : Assembly) : Prop :=
  ∀ (i : Nat) (e : Element), a.elements[i]? = some e → e.base = none

/-- A link as it is written has no target. -/
theorem Assembly.Unlinked.push {a : Assembly} (h : a.Unlinked) {e : Noted Element} {s : String}
    (he : e.value.derives = Link.parse? s) : (a.push e).1.Unlinked := by
  intro i e' hi
  change (a.elements.push e.value)[i]? = some e' at hi
  rw [Array.getElem?_push] at hi
  split at hi
  · cases hi
    unfold Element.base
    rw [he]
    unfold Link.parse?
    cases Reference.parse? s <;> rfl
  · exact h i e' hi

mutual

theorem addElement_unlinked : ∀ (e : Record.Element) {a : Assembly}, a.Unlinked →
    (addElement a e).1.Unlinked
  | .struct c s elements, a, h => by
      have hinside := addElements_unlinked elements h
      exact hinside.push (e := struct c s (addElements a elements).2) (s := c.derives)
        (by simp only [struct, Noted.value_bind, Noted.value_pure])
  | .number c n, _, h => h.push (e := number c n) (s := c.derives)
      (by simp only [number, Noted.value_bind, Noted.value_pure])
  | .string c s, _, h => h.push (e := string c s) (s := c.derives)
      (by simp only [string, Noted.value_bind, Noted.value_pure])
  | .binary c b, _, h => h.push (e := binary c b) (s := c.derives)
      (by simp only [binary, Noted.value_bind, Noted.value_pure])
  | .offset c o, _, h => h.push (e := offset c o) (s := c.derives)
      (by simp only [offset, Noted.value_bind, Noted.value_pure])
  | .structRef c r, _, h => h.push (e := structRef c r) (s := c.derives)
      (by simp only [structRef, Noted.value_bind, Noted.value_pure])
  | .grammarRef c g, _, h => h.push (e := grammarRef c g) (s := c.derives)
      (by simp only [grammarRef, Noted.value_bind, Noted.value_pure])
  | .custom c u, _, h => h.push (e := custom c u) (s := c.derives)
      (by simp only [custom, Noted.value_bind, Noted.value_pure])
  | .script c s, a, h => by
      have hscript : (a.pushScript (script s c.name)).1.Unlinked := h
      exact hscript.push (e := { value := scriptElement c a.scripts.size }) (s := c.derives)
        (by simp only [scriptElement])

theorem addElements_unlinked : ∀ (es : List Record.Element) {a : Assembly}, a.Unlinked →
    (addElements a es).1.Unlinked
  | [], _, h => h
  | e :: es, _, h => addElements_unlinked es (addElement_unlinked e h)

end

end Build

namespace Document

theorem addScripts_unlinked : ∀ (ss : List Record.Script) {a : Build.Assembly}, a.Unlinked →
    (a.addScripts ss).1.Unlinked
  | [], _, h => h
  | s :: ss, a, h => addScripts_unlinked ss (a := (a.pushScript (Build.script s "")).1) h

theorem ofParts_unlinked {version : String} {grammar : Grammar} {a : Build.Assembly}
    (h : a.Unlinked) : (ofParts version grammar a.elements a.scripts).Unlinked := by
  have hpadded := h.push (e := { value := { body := .padding } }) (s := "") (by decide)
  intro j
  unfold element
  rw [Array.getD_eq_getD_getElem?]
  cases hj : (ofParts version grammar a.elements a.scripts).elements[j]? with
  | none => rfl
  | some e => exact hpadded j e hj

theorem ofRecord_unlinked (r : Record.Document) : (ofRecord r).value.Unlinked := by
  have hempty : ∀ notes, Build.Assembly.Unlinked { notes } := by
    intro notes i e he
    simp at he
  exact ofParts_unlinked (Build.addElements_unlinked r.grammar.elements
    (addScripts_unlinked r.grammar.scripts (hempty _)))

/-! ## The whole document -/

variable {doc doc' : Document}

/-- The document once the bases of its elements have been looked up. -/
def withBases (doc : Document) : Document :=
  (linkBases doc.register.value (doc.register.value.preorder.map (·.1))).value

/-- The order of bases that is found while the document is linked. -/
def baseOrder (doc : Document) : BaseOrder :=
  doc.withBases.orderBases (doc.withBases.preorder.map (·.1))

theorem withBases_shape (doc : Document) : SameShape doc doc.withBases :=
  (register_shape doc).trans (linkBases_edited _ _).sameShape

/-- Elements are filled in the order that has been found. -/
theorem derive_value (doc : Document) :
    (doc.register.value.derive (doc.register.value.preorder.map (·.1))).value =
      (fillAll doc.baseOrder.doc doc.baseOrder.merges.toList).value := by
  have hpreorder : doc.withBases.preorder = doc.register.value.preorder :=
    preorder_congr (linkBases_edited _ _).sameShape
  unfold derive baseOrder
  simp only [Noted.value_bind, hpreorder]
  rfl

/-- After the bases have been ordered links may be cut, and no new ones are made. -/
theorem update_cuts (doc : Document) : Cuts doc.baseOrder.doc doc.update.value := by
  unfold update
  simp only [Noted.value_bind, derive_value]
  obtain ⟨grammar, hstart⟩ := resolveStart_elements
    (resolveAll (fillAll doc.baseOrder.doc doc.baseOrder.merges.toList).value
      (doc.register.value.preorder.map (·.1))).value
  rw [hstart]
  exact (fillAll_cuts _ _).trans (resolveAll_cuts _ _)

/-- The search over all elements of a document, in order. -/
theorem baseOrder_visits (hdoc : doc.Numbered) :
    (doc.withBases.preorder.map (·.1)).foldlM (BaseOrder.search doc.withBases.orderingDepth)
        { doc := doc.withBases } = some doc.baseOrder ∧
      BaseOrder.Extends { doc := doc.withBases } doc.baseOrder ∧ doc.baseOrder.Ordered ∧
      ∀ i, doc.Listed i → doc.baseOrder.marks[i]? = some Mark.done := by
  have hnumbered := hdoc.sameShape doc.withBases_shape
  have hvisits : ∀ {o : BaseOrder}, o.Holds doc.withBases.elements.size →
      ∀ i ∈ doc.withBases.preorder.map (·.1),
        BaseOrder.Visits doc.withBases.orderingDepth o i
          (BaseOrder.visit doc.withBases.orderingDepth o i) := by
    intro o ho i _
    have hdepth : doc.withBases.orderingDepth = o.doc.orderingDepth := by
      unfold orderingDepth
      rw [ho.2]
    rw [hdepth]
    exact BaseOrder.visits_of_numbered ho.1 i
  obtain ⟨hsearch, hlater, hordered, hdone⟩ := BaseOrder.foldl_visits
    (BaseOrder.Holds.lasting _) _ (o := { doc := doc.withBases }) hvisits ⟨hnumbered, rfl⟩
  refine ⟨hsearch, hlater, hordered (.empty _), fun i hi => hdone i ?_ ?_⟩
  · exact (Listed.congr doc.withBases_shape i).mpr hi
  · have hnone : ({} : Std.HashMap Nat Mark)[i]? = none := Std.HashMap.getElem?_empty
    exact fun h => nomatch hnone.symm.trans h

/-- Only elements of the grammar have bases. -/
theorem baseOrder_listed (hdoc : doc.Numbered) (hunlinked : doc.Unlinked) {e : Nat}
    (he : (doc.baseOrder.doc.element e).base ≠ none) : doc.Listed e := by
  obtain ⟨_, hlater, _, _⟩ := baseOrder_visits hdoc
  refine (Listed.congr (register_shape doc) e).mp ?_
  have hbase : (doc.withBases.element e).base ≠ none := by
    rcases hlater.base e with hsame | ⟨_, hcut⟩
    · rw [← hsame]
      exact he
    · exact absurd hcut he
  exact (linkBases_linked _ hbase).resolve_right fun h => h (register_unlinked hunlinked e)

/-- **The elements that still have a base are those that are listed.** -/
theorem mem_merges_iff (hdoc : doc.Numbered) (hunlinked : doc.Unlinked) (e : Nat) :
    e ∈ doc.baseOrder.merges.toList ↔ ∃ b, doc.baseOrder.doc.DerivesFrom e b := by
  obtain ⟨_, _, hordered, hdone⟩ := baseOrder_visits hdoc
  rw [hordered.listed e, Option.ne_none_iff_exists']
  refine ⟨fun h => h.2, fun h => ⟨hdone e ?_, h⟩⟩
  exact baseOrder_listed hdoc hunlinked (Option.ne_none_iff_exists'.mpr h)

theorem load_cuts (r : Record.Document) : Cuts (ofRecord r).value.baseOrder.doc (load r).value := by
  unfold load
  rw [Noted.value_bind]
  exact update_cuts _

/-- **Bases are ordered.** Whatever is wrong with a record, the search ends at every element and
from every state it can be in, and so does the search over all elements. It lists the elements that
still have a base, each of them once and after its base. In the document that is loaded no element
derives from itself, directly or through others. -/
theorem load_bases (r : Record.Document) :
    let doc := (ofRecord r).value
    let o := doc.baseOrder
    (∀ o : BaseOrder, SameShape doc o.doc → ∀ i,
      BaseOrder.search doc.orderingDepth o i = some (BaseOrder.visit doc.orderingDepth o i)) ∧
    (doc.withBases.preorder.map (·.1)).foldlM (BaseOrder.search doc.withBases.orderingDepth)
      { doc := doc.withBases } = some o ∧
    o.merges.toList.Nodup ∧
    (∀ e, e ∈ o.merges.toList ↔ ∃ b, o.doc.DerivesFrom e b) ∧
    (∀ e b, o.doc.DerivesFrom e b → b ∈ o.merges.toList →
      o.merges.toList.idxOf b < o.merges.toList.idxOf e) ∧
    (∀ e b, (load r).value.DerivesFrom e b → o.doc.DerivesFrom e b) ∧
    ∀ e, ¬Relation.TransGen (load r).value.DerivesFrom e e := by
  have hdoc := ofRecord_numbered r
  have hunlinked := ofRecord_unlinked r
  have hcuts := load_cuts r
  generalize (ofRecord r).value = doc at *
  obtain ⟨hsearch, _, hordered, hdone⟩ := baseOrder_visits hdoc
  have hlisted (e : Nat) := mem_merges_iff hdoc hunlinked e
  have hdone (e : Nat) (he : (doc.baseOrder.doc.element e).base ≠ none) :=
    hdone e (baseOrder_listed hdoc hunlinked he)
  dsimp only
  generalize doc.baseOrder = o at *
  refine ⟨fun o hshape i => ?_, hsearch, hordered.once, hlisted, fun e b he hb => ?_,
    fun e b he => hcuts.derives he, fun e hcycle => ?_⟩
  · have hdepth : doc.orderingDepth = o.doc.orderingDepth := by
      unfold orderingDepth
      rw [hshape.size]
    rw [hdepth]
    exact (BaseOrder.visits_of_numbered (hdoc.sameShape hshape) i).search
  · have hbase : (o.doc.element e).base ≠ none := Option.ne_none_iff_exists'.mpr ⟨b, he⟩
    exact hordered.idxOf_lt he (hdone e hbase) ((hordered.listed b).mp hb).2
  · have hway : Relation.TransGen o.doc.DerivesFrom e e :=
      Relation.TransGen.mono (fun _ _ h => hcuts.derives h) e e hcycle
    exact (hordered.wellFounded hdone).transGen.irrefl.irrefl e (Relation.transGen_swap.mpr hway)

end Document

end BinaryGrammar
