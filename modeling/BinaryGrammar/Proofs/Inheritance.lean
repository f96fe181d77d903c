import BinaryGrammar.Proofs.BaseOrder

/-!
# What elements take over from their bases

Filling an element and all its children from a base is a sequence of single fillings, one for each
pair of elements of the same name, and this sequence can be told from the names alone. All elements
of a document are filled by one such sequence. Each filling leaves its target with every attribute
that its source has at that time, and nothing takes them away again.

So filling an element from its base once more changes nothing, provided that no source of its
fillings is filled later than the target is filled from it. The order of bases does not always see
to that: an element inside a structure may be filled by name after another element that derives from
it has been filled.

The main statements are `load_inherits`, and `load_overtaken` for a grammar in which an attribute
comes too late.
-/

set_option autoImplicit false

namespace BinaryGrammar

/-! ## Attributes that are set -/

/-- Which of the attributes that can be taken over are set in a body. -/
def Body.set : Body → List Bool
  | .struct b =>
    [b.length.isSome, b.lengthUnit.isSome, b.lengthOffset.isSome, b.endian.isSome, b.signed.isSome,
      b.encoding.isSome, b.order.isSome, b.display.isSome]
  | .number b =>
    [b.type.isSome, b.length.isSome, b.lengthUnit.isSome, b.endian.isSome, b.signed.isSome,
      b.display.isSome, b.mustMatch.isSome, !b.values.isEmpty, !b.masks.isEmpty]
  | .string b =>
    [b.type.isSome, b.length.isSome, b.lengthUnit.isSome, b.encoding.isSome, b.delimiter.isSome,
      b.mustMatch.isSome, !b.values.isEmpty]
  | .binary b => [b.length.isSome, b.lengthUnit.isSome, b.mustMatch.isSome, !b.values.isEmpty]
  | .offset b =>
    [b.length.isSome, b.lengthUnit.isSome, b.endian.isSome, b.display.isSome, b.relativeTo.isSome,
      b.references.isSome, b.referencedSize.isSome, b.followNullReference.isSome,
      b.additional.isSome]
  | .structRef b => [b.disabled.isSome, b.target.isSome]
  | .grammarRef b => [b.uti.isSome, b.filename.isSome, b.disabled.isSome, b.grammar.isSome]
  | .custom b => [b.length.isSome, b.lengthUnit.isSome, b.script.isSome]
  | .script s => [s.isSome]
  | .padding => []

namespace Fill

/-- Wherever one list is true the other is. -/
def Within (xs ys : List Bool) : Prop := List.Forall₂ (fun x y => x = true → y = true) xs ys

namespace Within

theorem refl : ∀ xs : List Bool, Within xs xs
  | [] => .nil
  | _ :: xs => .cons id (refl xs)

theorem trans : ∀ {xs ys zs : List Bool}, Within xs ys → Within ys zs → Within xs zs
  | _, _, _, .nil, .nil => .nil
  | _, _, _, .cons h hs, .cons h' hs' => .cons (h' ∘ h) (trans hs hs')

end Within

variable {α : Type}

theorem or_eq_left_iff {a b : Option α} :
    a.or b = a ↔ (b.isSome = true → a.isSome = true) := by
  cases a <;> cases b <;> simp

theorem list_eq_left_iff {a b : List α} :
    list a b = a ↔ ((!b.isEmpty) = true → (!a.isEmpty) = true) := by
  cases a <;> cases b <;> simp [list]

theorem link_eq_left_iff {a b : Option (Link α)} :
    link a b = a ↔ (b.isSome = true → a.isSome = true) := by
  unfold link
  rw [or_eq_left_iff, Option.isSome_map]

theorem ident_eq_left_iff {a b : Ident} : ident a b = a ↔
    ((!b.description.isEmpty) = true → (!a.description.isEmpty) = true) := by
  obtain ⟨id, name, description⟩ := a
  by_cases h : description = ""
  · simp [ident, h]
  · simp [ident, h]

theorem repeats_eq_left_iff {a b : Repeats} : repeats a b = a ↔
    (b.min.isSome = true → a.min.isSome = true) ∧ (b.max.isSome = true → a.max.isSome = true) := by
  cases a
  simp only [repeats, Repeats.mk.injEq, or_eq_left_iff]

theorem colours_eq_left_iff {a b : Colours} : colours a b = a ↔
    (b.fill.isSome = true → a.fill.isSome = true) ∧
      (b.stroke.isSome = true → a.stroke.isSome = true) := by
  cases a
  simp only [colours, Colours.mk.injEq, or_eq_left_iff]

theorem body?_eq_none_iff {d s : Body} : body? d s = none ↔ d.kind ≠ s.kind := by
  cases d <;> cases s <;> simp [body?, Body.kind]

/-- A body that is filled from another of its kind stays as it is if it has all that the other
has. -/
theorem body?_eq_self_iff {d s : Body} (h : d.kind = s.kind) :
    body? d s = some d ↔ Within s.set d.set := by
  cases d <;> cases s <;> cases h
  case script.script.refl => simp [body?, Body.set, Within, or_eq_left_iff]
  case padding.padding.refl => simp [body?, Body.set, Within]
  all_goals
    rename_i d s
    cases d
    cases s
    simp [body?, Body.set, Within, struct, number, string, binary, offset, structRef, grammarRef,
      custom, or_eq_left_iff, list_eq_left_iff, link_eq_left_iff]

theorem list_isEmpty (a b : List α) : (list a b).isEmpty = (a.isEmpty && b.isEmpty) := by
  cases a <;> cases b <;> rfl

theorem link_isSome (a b : Option (Link α)) : (link a b).isSome = (a.isSome || b.isSome) := by
  unfold link
  rw [Option.isSome_or, Option.isSome_map]

/-- A body that has been filled has what it had and what the other has. -/
theorem within_of_body? {d s b : Body} (h : body? d s = some b) :
    Within d.set b.set ∧ Within s.set b.set := by
  cases d <;> cases s <;> cases h <;>
    simp +contextual [Body.set, Within, struct, number, string, binary, offset, structRef,
      grammarRef, custom, list_isEmpty, link_isSome]

theorem ident_isEmpty (a b : Ident) : (ident a b).description.isEmpty =
    (a.description.isEmpty && b.description.isEmpty) := by
  unfold ident
  by_cases h : a.description.isEmpty = true
  · rw [if_pos h, h, Bool.true_and]
  · rw [if_neg h, Bool.eq_false_iff.mpr h, Bool.false_and]

end Fill

namespace Element

/-- Which of the attributes that can be taken over are set in an element. -/
def set (e : Element) : List Bool :=
  (!e.ident.description.isEmpty) :: e.repeats.min.isSome :: e.repeats.max.isSome ::
    e.colours.fill.isSome :: e.colours.stroke.isSome :: e.body.set

/-- One element has all attributes that another of the same kind has. -/
def Covers (own base : Element) : Prop := own.kind = base.kind → Fill.Within base.set own.set

variable {own base : Element}

theorem fillFrom_of_kind_ne (h : own.kind ≠ base.kind) : own.fillFrom base = own := by
  unfold fillFrom
  rw [Fill.body?_eq_none_iff.mpr h]

theorem exists_body? (h : own.kind = base.kind) :
    ∃ body, Fill.body? own.body base.body = some body ∧ own.fillFrom base =
      { own with
        ident := Fill.ident own.ident base.ident
        repeats := Fill.repeats own.repeats base.repeats
        colours := Fill.colours own.colours base.colours
        body } := by
  obtain ⟨body, hbody⟩ := Option.ne_none_iff_exists'.mp fun hnone =>
    Fill.body?_eq_none_iff.mp hnone h
  refine ⟨body, hbody, ?_⟩
  unfold fillFrom
  rw [hbody]

/-- **Filling an element from another changes nothing exactly if it has all attributes that the
other has.** -/
theorem fillFrom_eq_self_iff : own.fillFrom base = own ↔ own.Covers base := by
  by_cases hkind : own.kind = base.kind
  · obtain ⟨body, hbody, hfill⟩ := exists_body? hkind
    have hself : own.fillFrom base = own ↔ Fill.ident own.ident base.ident = own.ident ∧
        Fill.repeats own.repeats base.repeats = own.repeats ∧
        Fill.colours own.colours base.colours = own.colours ∧
        Fill.body? own.body base.body = some own.body := by
      rw [hfill, hbody]
      obtain ⟨i, r, c, d, p, b⟩ := own
      simp
    rw [hself, Fill.body?_eq_self_iff hkind, Fill.ident_eq_left_iff, Fill.repeats_eq_left_iff,
      Fill.colours_eq_left_iff]
    unfold Covers Fill.Within set
    simp only [hkind, true_imp_iff, List.forall₂_cons, and_assoc]
  · exact ⟨fun _ h => absurd h hkind, fun _ => fillFrom_of_kind_ne hkind⟩

/-- Filling takes no attribute away. -/
theorem set_fillFrom (own base : Element) : Fill.Within own.set (own.fillFrom base).set := by
  by_cases hkind : own.kind = base.kind
  · obtain ⟨body, hbody, hfill⟩ := exists_body? hkind
    rw [hfill]
    have hrest := (Fill.within_of_body? hbody).1
    unfold Fill.Within set at *
    simp +contextual [Fill.ident_isEmpty, Fill.repeats, Fill.colours, hrest]
  · rw [fillFrom_of_kind_ne hkind]
    exact .refl _

theorem fillFrom_covers (own base : Element) : (own.fillFrom base).Covers base := by
  by_cases hkind : own.kind = base.kind
  · obtain ⟨body, hbody, hfill⟩ := exists_body? hkind
    rw [hfill]
    have hrest := (Fill.within_of_body? hbody).2
    intro _
    unfold Fill.Within set at *
    simp +contextual [Fill.ident_isEmpty, Fill.repeats, Fill.colours, hrest]
  · rw [fillFrom_of_kind_ne hkind]
    exact fun h => absurd h hkind

/-- What is covered stays so when the element gets more attributes. -/
theorem Covers.mono {own' : Element} (h : own.Covers base) (hkind : own'.kind = own.kind)
    (hset : Fill.Within own.set own'.set) : own'.Covers base :=
  fun hsame => (h (hkind.symm.trans hsame)).trans hset

/-- What has fewer attributes is covered too. -/
theorem Covers.anti {base' : Element} (h : own.Covers base) (hkind : base.kind = base'.kind)
    (hset : Fill.Within base'.set base.set) : own.Covers base' :=
  fun hsame => hset.trans (h (hsame.trans hkind.symm))

/-- What filling leaves alone: the label of an element, its base and its children. -/
def outline (e : Element) : Label × Option Nat × List Nat := (e.label, e.base, e.children)

theorem outline_eq {e e' : Element} (hshape : e'.shape = e.shape)
    (hid : e'.ident.id = e.ident.id) (hname : e'.ident.name = e.ident.name)
    (hbase : e'.base = e.base) : e'.outline = e.outline := by
  have hkind : e'.kind = e.kind := congrArg Prod.fst hshape
  have hchildren : e'.children = e.children := congrArg Prod.snd hshape
  unfold outline label
  rw [hkind, hchildren, hid, hname, hbase]

theorem fillFrom_outline (own base : Element) : (own.fillFrom base).outline = own.outline := by
  have hident : (own.fillFrom base).ident.id = own.ident.id ∧
      (own.fillFrom base).ident.name = own.ident.name := by
    unfold fillFrom
    split <;> exact ⟨rfl, rfl⟩
  exact outline_eq (Document.fillFrom_shape own base) hident.1 hident.2
    (Document.fillFrom_base own base)

end Element

namespace Document

variable {doc doc' doc'' : Document}

/-! ## Outlines -/

/-- Labels, bases and children are the same in both documents. -/
structure SameOutline (doc doc' : Document) : Prop where
  size : doc'.elements.size = doc.elements.size
  outline : ∀ i, (doc'.element i).outline = (doc.element i).outline

namespace SameOutline

theorem refl (doc : Document) : SameOutline doc doc := ⟨rfl, fun _ => rfl⟩

theorem trans (h : SameOutline doc doc') (h' : SameOutline doc' doc'') : SameOutline doc doc'' :=
  ⟨h'.size.trans h.size, fun i => (h'.outline i).trans (h.outline i)⟩

theorem symm (h : SameOutline doc doc') : SameOutline doc' doc :=
  ⟨h.size.symm, fun i => (h.outline i).symm⟩

variable (h : SameOutline doc doc') (i : Nat)
include h

theorem label : (doc'.element i).label = (doc.element i).label := congrArg (·.1) (h.outline i)

theorem base : (doc'.element i).base = (doc.element i).base := congrArg (·.2.1) (h.outline i)

theorem children : (doc'.element i).children = (doc.element i).children :=
  congrArg (·.2.2) (h.outline i)

theorem kind : (doc'.element i).kind = (doc.element i).kind :=
  congrArg Label.kind (h.label i)

theorem name : (doc'.element i).name = (doc.element i).name := congrArg Label.name (h.label i)

theorem matchedChildren (t s : Nat) :
    doc'.matchedChildren t s = doc.matchedChildren t s := by
  unfold Document.matchedChildren
  simp only [h.children, h.name]

theorem mismatch? : ∀ depth t s : Nat, doc'.mismatch? depth t s = doc.mismatch? depth t s
  | 0, _, _ => rfl
  | depth + 1, t, s => by
      unfold Document.mismatch?
      simp only [h.kind, h.label, h.matchedChildren, mismatch? depth]

end SameOutline

/-! ## Filling as a sequence -/

/-- The single fillings that filling an element with its children from another comes to, each with
its target and its source. -/
def pairs (doc : Document) : Nat → Nat → Nat → List (Nat × Nat)
  | 0, _, _ => []
  | depth + 1, target, source =>
    if target = source then []
    else (target, source) ::
      (doc.matchedChildren target source).flatMap fun p => pairs doc depth p.1 p.2

/-- One filling. -/
def fillPair (doc : Document) (p : Nat × Nat) : Document :=
  doc.modify p.1 fun e => e.fillFrom (doc.element p.2)

theorem SameOutline.pairs (h : SameOutline doc doc') : ∀ depth t s : Nat,
    doc'.pairs depth t s = doc.pairs depth t s
  | 0, _, _ => rfl
  | depth + 1, t, s => by
      unfold Document.pairs
      simp only [h.matchedChildren, SameOutline.pairs h depth]

theorem fillPair_outline (doc : Document) (p : Nat × Nat) : SameOutline doc (doc.fillPair p) := by
  refine ⟨Array.size_modify, fun i => ?_⟩
  unfold fillPair
  rw [element_modify]
  split
  · exact Element.fillFrom_outline _ _
  · rfl

theorem fillPairs_outline : ∀ (ps : List (Nat × Nat)) (doc : Document),
    SameOutline doc (ps.foldl fillPair doc)
  | [], doc => .refl doc
  | p :: ps, doc => (doc.fillPair_outline p).trans (fillPairs_outline ps _)

/-- **Filling an element with its children is a sequence of single fillings.** -/
theorem fill_eq_foldl : ∀ (depth : Nat) (doc : Document) (t s : Nat),
    doc.fill depth t s = (doc.pairs depth t s).foldl fillPair doc
  | 0, _, _, _ => rfl
  | depth + 1, doc, t, s => by
      unfold fill pairs
      split
      · rfl
      · -- the pairs of children are the same whatever has been filled before
        have hchildren : ∀ (ps : List (Nat × Nat)) {doc' : Document}, SameOutline doc doc' →
            ps.foldl (fun doc p => fill doc depth p.1 p.2) doc' =
              (ps.flatMap fun p => doc.pairs depth p.1 p.2).foldl fillPair doc' := by
          intro ps
          induction ps with
          | nil => exact fun _ => rfl
          | cons p ps ih =>
              intro doc' h
              rw [List.foldl_cons, List.flatMap_cons, List.foldl_append,
                fill_eq_foldl depth doc' p.1 p.2, h.pairs]
              exact ih (h.trans (fillPairs_outline _ _))
        rw [List.foldl_cons]
        exact hchildren _ (doc.fillPair_outline (t, s))

/-- Nothing keeps an element from being filled from another. -/
def Matched (doc : Document) (t s : Nat) : Prop :=
  t = s ∨ doc.mismatch? doc.depthBound t s = none

theorem SameOutline.matched (h : SameOutline doc doc') {t s : Nat} (hmatched : doc.Matched t s) :
    doc'.Matched t s := by
  unfold Matched depthBound
  rw [h.mismatch?, h.size]
  exact hmatched

theorem extend_of_matched {t s : Nat} (h : doc.Matched t s) :
    doc.extend t s = .ok ((doc.pairs doc.depthBound t s).foldl fillPair doc) := by
  unfold extend
  by_cases hts : t = s
  · rw [if_pos hts]
    unfold depthBound pairs
    rw [if_pos hts]
    rfl
  · rw [if_neg hts, h.resolve_left hts, fill_eq_foldl]

theorem matched_of_extend {t s : Nat} {doc' : Document} (h : doc.extend t s = .ok doc') :
    doc.Matched t s := by
  unfold extend at h
  split at h
  · exact Or.inl ‹_›
  · split at h
    · cases h
    · exact Or.inr ‹_›

/-- The fillings of an element from its base. -/
def derivedPairs (doc : Document) (i : Nat) : List (Nat × Nat) :=
  match (doc.element i).base with
  | none => []
  | some base => doc.pairs doc.depthBound i base

theorem SameOutline.derivedPairs (h : SameOutline doc doc') (i : Nat) :
    doc'.derivedPairs i = doc.derivedPairs i := by
  unfold Document.derivedPairs depthBound
  rw [h.base, h.size]
  simp only [h.pairs]

/-- An element about which nothing is reported is filled from its base. -/
theorem fillFromBase_eq_foldl {i : Nat} (h : (doc.fillFromBase i).notes = []) :
    (doc.fillFromBase i).value = (doc.derivedPairs i).foldl fillPair doc ∧
      ∀ b, doc.DerivesFrom i b → doc.Matched i b := by
  unfold fillFromBase derivedPairs DerivesFrom at *
  cases hbase : (doc.element i).base with
  | none => exact ⟨rfl, nofun⟩
  | some b =>
      simp only [hbase] at h ⊢
      cases hextend : doc.extend i b with
      | error m =>
          rw [hextend] at h
          cases h
      | ok doc' =>
          have hmatched := matched_of_extend hextend
          rw [extend_of_matched hmatched] at hextend
          cases hextend
          refine ⟨rfl, fun b' hb => ?_⟩
          cases hb
          exact hmatched

/-- **Filling all elements is one sequence of single fillings.** -/
theorem fillAll_eq_foldl : ∀ (is : List Nat) {doc : Document}, (fillAll doc is).notes = [] →
    (fillAll doc is).value = (is.flatMap doc.derivedPairs).foldl fillPair doc ∧
      ∀ i ∈ is, ∀ b, doc.DerivesFrom i b → doc.Matched i b
  | [], _, _ => ⟨rfl, fun i hi => by cases hi⟩
  | i :: is, doc, h => by
      obtain ⟨hfirst, hrest⟩ := Noted.notes_bind_eq_nil h
      obtain ⟨hvalue, hmatched⟩ := fillFromBase_eq_foldl hfirst
      have houtline : SameOutline doc (doc.fillFromBase i).value :=
        hvalue ▸ fillPairs_outline _ doc
      obtain ⟨hvalues, hall⟩ := fillAll_eq_foldl is hrest
      refine ⟨?_, fun j hj b hb => ?_⟩
      · rw [List.flatMap_cons, List.foldl_append, ← hvalue,
          ← funext houtline.derivedPairs]
        exact hvalues
      · rcases List.mem_cons.mp hj with rfl | hj
        · exact hmatched b hb
        · exact houtline.symm.matched (hall j hj b ((houtline.base j).trans hb))

/-! ## What a sequence of fillings leaves -/

theorem element_fillPair (doc : Document) (p : Nat × Nat) (j : Nat) :
    (doc.fillPair p).element j = if p.1 = j ∧ j < doc.elements.size then
      (doc.element j).fillFrom (doc.element p.2) else doc.element j := element_modify ..

/-- No filling takes attributes away. -/
theorem set_fillPairs : ∀ (ps : List (Nat × Nat)) (doc : Document) (j : Nat),
    Fill.Within (doc.element j).set ((ps.foldl fillPair doc).element j).set
  | [], _, _ => .refl _
  | p :: ps, doc, j => by
      refine Fill.Within.trans ?_ (set_fillPairs ps (doc.fillPair p) j)
      rw [element_fillPair]
      split
      · exact Element.set_fillFrom _ _
      · exact .refl _

/-- What is not filled stays as it is. -/
theorem element_fillPairs : ∀ (ps : List (Nat × Nat)) {doc : Document} {j : Nat},
    (∀ p ∈ ps, p.1 ≠ j) → (ps.foldl fillPair doc).element j = doc.element j
  | [], _, _, _ => rfl
  | p :: ps, doc, j, h => by
      rw [List.foldl_cons, element_fillPairs ps fun q hq => h q (List.mem_cons_of_mem _ hq),
        element_fillPair, if_neg fun hp => h p List.mem_cons_self hp.1]

/-- **After a sequence of fillings the target of each has all attributes that its source had when it
was filled.** -/
theorem fillPairs_covers {before after : List (Nat × Nat)} {t s : Nat}
    (ht : t < doc.elements.size) :
    (((before ++ (t, s) :: after).foldl fillPair doc).element t).Covers
      ((before.foldl fillPair doc).element s) := by
  rw [List.foldl_append, List.foldl_cons]
  have hsize : t < (before.foldl fillPair doc).elements.size := by
    rw [(fillPairs_outline before doc).size]
    exact ht
  generalize before.foldl fillPair doc = doc₁ at *
  have hnow : ((doc₁.fillPair (t, s)).element t).Covers (doc₁.element s) := by
    rw [element_fillPair, if_pos ⟨rfl, hsize⟩]
    exact Element.fillFrom_covers _ _
  exact hnow.mono ((fillPairs_outline after _).kind t) (set_fillPairs after _ t)

/-- A filling is settled in a sequence if its source is not filled after it. -/
def SettledIn (ps : List (Nat × Nat)) (p : Nat × Nat) : Prop :=
  ∃ before after, ps = before ++ p :: after ∧ ∀ q ∈ after, q.1 ≠ p.2

/-- The target of a filling that is settled has all attributes of its source. -/
theorem SettledIn.covers {ps : List (Nat × Nat)} {t s : Nat} (h : SettledIn ps (t, s))
    (hne : t ≠ s) (ht : t < doc.elements.size) :
    ((ps.foldl fillPair doc).element t).Covers ((ps.foldl fillPair doc).element s) := by
  obtain ⟨before, after, rfl, hafter⟩ := h
  have hsource : ((before ++ (t, s) :: after).foldl fillPair doc).element s =
      (before.foldl fillPair doc).element s := by
    rw [List.foldl_append]
    refine element_fillPairs _ fun q hq => ?_
    rcases List.mem_cons.mp hq with rfl | hq
    · exact hne
    · exact hafter q hq
  rw [hsource]
  exact fillPairs_covers ht

/-- The target of every filling has all attributes that its source had at first. -/
theorem fillPairs_covers_first {ps : List (Nat × Nat)} {t s : Nat} (h : (t, s) ∈ ps)
    (ht : t < doc.elements.size) :
    ((ps.foldl fillPair doc).element t).Covers (doc.element s) := by
  obtain ⟨before, after, rfl⟩ := List.append_of_mem h
  exact (fillPairs_covers ht).anti ((fillPairs_outline before doc).kind s)
    (set_fillPairs before doc s)

/-- Filling from what is covered changes nothing. -/
theorem fillPair_of_covers {p : Nat × Nat} (h : (doc.element p.1).Covers (doc.element p.2)) :
    doc.fillPair p = doc := by
  have hself : ∀ e, doc.elements[p.1]? = some e → e.fillFrom (doc.element p.2) = e := by
    intro e he
    have helement : doc.element p.1 = e := by
      unfold element
      rw [Array.getD_eq_getD_getElem?, he]
      rfl
    rw [helement] at h
    exact Element.fillFrom_eq_self_iff.mpr h
  have harray : doc.elements.modify p.1 (fun e => e.fillFrom (doc.element p.2)) = doc.elements := by
    apply Array.ext_getElem?
    intro j
    rw [Array.getElem?_modify]
    split
    · rename_i hj
      subst hj
      cases he : doc.elements[p.1]? with
      | none => rfl
      | some e => exact congrArg some (hself e he)
    · rfl
  unfold fillPair modify
  rw [harray]

theorem fillPairs_of_covers : ∀ {ps : List (Nat × Nat)},
    (∀ p ∈ ps, (doc.element p.1).Covers (doc.element p.2)) → ps.foldl fillPair doc = doc
  | [], _ => rfl
  | p :: ps, h => by
      rw [List.foldl_cons, fillPair_of_covers (h p List.mem_cons_self)]
      exact fillPairs_of_covers fun q hq => h q (List.mem_cons_of_mem _ hq)

/-- No element is filled from itself, and the targets are elements inside the one that is filled. -/
theorem mem_pairs (hdoc : doc.Numbered) : ∀ {depth t s : Nat} {p : Nat × Nat}, doc.Listed t →
    p ∈ doc.pairs depth t s → p.1 ≠ p.2 ∧ doc.Listed p.1
  | 0, _, _, _, _, h => by cases h
  | depth + 1, t, s, p, ht, h => by
      unfold pairs at h
      split at h
      · cases h
      · rcases List.mem_cons.mp h with rfl | h
        · exact ⟨‹_›, ht⟩
        · obtain ⟨q, hq, h⟩ := List.mem_flatMap.mp h
          refine mem_pairs hdoc ?_ h
          unfold matchedChildren at hq
          obtain ⟨c, hc, hq⟩ := List.mem_filterMap.mp hq
          dsimp only at hq
          split at hq
          · cases hq
          · obtain ⟨_, _, rfl⟩ := Option.map_eq_some_iff.mp hq
            exact ht.child hdoc hc

/-! ## Resolving -/

end Document

/-- The attributes whose setting does not depend on what references are found: all but the link of a
reference to a grammar, which may be made for a type identifier. -/
def Body.fixed : Body → List Bool
  | .grammarRef b => [b.uti.isSome, b.filename.isSome, b.disabled.isSome]
  | b => b.set

theorem Body.fixed_of_kind_ne {b : Body} (h : b.kind ≠ .grammarRef) : b.fixed = b.set := by
  cases b with
  | grammarRef g => exact absurd rfl h
  | _ => rfl

theorem Body.grammarRef_of_kind {b : Body} (h : b.kind = .grammarRef) : ∃ g, b = .grammarRef g := by
  cases b with
  | grammarRef g => exact ⟨g, rfl⟩
  | _ => cases h

/-- An element whose references have been looked up. -/
structure Element.Relinked (e e' : Element) : Prop where
  rest : e' = { e with body := e'.body }
  outline : e'.outline = e.outline
  fixed : e'.body.fixed = e.body.fixed

namespace Element.Relinked

variable {e e' e'' own own' base base' : Element}

theorem refl (e : Element) : Relinked e e := ⟨rfl, rfl, rfl⟩

theorem trans (h : Relinked e e') (h' : Relinked e' e'') : Relinked e e'' := by
  refine ⟨?_, h'.outline.trans h.outline, h'.fixed.trans h.fixed⟩
  rw [h'.rest, h.rest]

theorem kind (h : Relinked e e') : e'.kind = e.kind := congrArg (·.1.kind) h.outline

/-- Looking up references leaves attributes covered, if all references to grammars are found. -/
theorem covers (hown : Relinked own own') (hbase : Relinked base base') (h : own.Covers base)
    (hlink : ∀ g, own'.body = .grammarRef g → g.grammar.isSome = true) : own'.Covers base' := by
  intro hkind
  have hsame : own.kind = base.kind := hown.kind.symm.trans (hkind.trans hbase.kind)
  have hset := h hsame
  have hbodies (hset : Fill.Within base.body.set own.body.set) :
      Fill.Within base'.body.set own'.body.set := by
    by_cases hgrammar : own'.kind = .grammarRef
    · obtain ⟨g', hg'⟩ := Body.grammarRef_of_kind hgrammar
      obtain ⟨g, hg⟩ := Body.grammarRef_of_kind (hown.kind.symm.trans hgrammar)
      obtain ⟨b', hb'⟩ := Body.grammarRef_of_kind (hkind.symm.trans hgrammar)
      obtain ⟨b, hb⟩ := Body.grammarRef_of_kind (hsame.symm.trans (hown.kind.symm.trans hgrammar))
      have hfixed := hown.fixed
      have hfixed' := hbase.fixed
      rw [hg, hg'] at hfixed
      rw [hb, hb'] at hfixed'
      rw [hg, hb] at hset
      rw [hg', hb']
      simp only [Body.fixed, List.cons.injEq, and_true] at hfixed hfixed'
      simp only [Body.set, Fill.Within, List.forall₂_cons, hlink g' hg', implies_true,
        hfixed, hfixed'] at hset ⊢
      exact ⟨hset.1, hset.2.1, hset.2.2.1, trivial, .nil⟩
    · have hown' : own.kind ≠ .grammarRef := hown.kind ▸ hgrammar
      have hbase' : base'.kind ≠ .grammarRef := hkind ▸ hgrammar
      have hbase'' : base.kind ≠ .grammarRef := hbase.kind ▸ hbase'
      rw [← Body.fixed_of_kind_ne hgrammar, ← Body.fixed_of_kind_ne hbase', hown.fixed, hbase.fixed,
        Body.fixed_of_kind_ne hown', Body.fixed_of_kind_ne hbase'']
      exact hset
  unfold Element.set Fill.Within at *
  rw [hown.rest, hbase.rest]
  simp only [List.forall₂_cons] at hset ⊢
  obtain ⟨h₁, h₂, h₃, h₄, h₅, hbody⟩ := hset
  exact ⟨h₁, h₂, h₃, h₄, h₅, hbodies hbody⟩

end Element.Relinked

namespace Document

variable {doc doc' : Document}

theorem resolveLink_isSome (doc : Document) (owner : Label) (attr : String)
    (link : Option (Link Nat)) (expected : Option Kind) :
    (doc.resolveLink owner attr link expected).value.isSome = link.isSome := by
  cases link <;> rfl

theorem resolveBody_fixed (doc : Document) (owner : Label) (body : Body) :
    (doc.resolveBody owner body).value.fixed = body.fixed := by
  cases body with
  | structRef r =>
      unfold resolveBody resolveStructRef
      cases htarget : r.target <;> simp [Body.fixed, Body.set, resolveLink_isSome, htarget]
  | grammarRef g =>
      unfold resolveBody resolveGrammarRef
      rw [Noted.value_bind]
      split <;> rfl
  | custom c =>
      unfold resolveBody resolveCustom
      cases hscript : c.script <;> simp [Body.fixed, Body.set, hscript]
  | offset o =>
      simp [resolveBody, resolveOffset, Body.fixed, Body.set, resolveLink_isSome]
  | _ => rfl

theorem resolveAll_relinked : ∀ (is : List Nat) (doc : Document) (j : Nat),
    ((doc.element j)).Relinked ((resolveAll doc is).value.element j)
  | [], _, _ => .refl _
  | i :: is, doc, j => by
      refine Element.Relinked.trans ?_ (resolveAll_relinked is _ j)
      rw [element_modify]
      split
      · rename_i hij
        cases hij.1
        exact ⟨rfl, Element.outline_eq (resolveBody_shape doc _) rfl rfl rfl,
          resolveBody_fixed _ _ _⟩
      · exact .refl _

/-! ## Loading -/

/-- The fillings of all elements, in the order in which they are made while a document is linked. -/
def fillings (doc : Document) : List (Nat × Nat) :=
  doc.baseOrder.merges.toList.flatMap doc.baseOrder.doc.derivedPairs

/-- The document before references are looked up. -/
def filled (doc : Document) : Document := doc.fillings.foldl fillPair doc.baseOrder.doc

/-- When nothing is reported all fillings have been made, and then references have been looked
up. -/
theorem update_filled (h : doc.update.notes = []) :
    (∀ i ∈ doc.baseOrder.merges.toList, ∀ b, doc.baseOrder.doc.DerivesFrom i b →
      doc.baseOrder.doc.Matched i b) ∧
    doc.update.value.elements.size = doc.filled.elements.size ∧
    ∀ j, (doc.filled.element j).Relinked (doc.update.value.element j) := by
  have hfills : (fillAll doc.baseOrder.doc doc.baseOrder.merges.toList).notes = [] := by
    have hpreorder : doc.withBases.preorder = doc.register.value.preorder :=
      preorder_congr (linkBases_edited _ _).sameShape
    unfold update at h
    obtain ⟨_, h⟩ := Noted.notes_bind_eq_nil h
    obtain ⟨h, _⟩ := Noted.notes_bind_eq_nil h
    obtain ⟨_, h⟩ := Noted.notes_bind_eq_nil h
    obtain ⟨_, h⟩ := Noted.notes_bind_eq_nil h
    unfold baseOrder
    rw [hpreorder]
    exact h
  obtain ⟨hvalue, hmatched⟩ := fillAll_eq_foldl _ hfills
  have hfilled : (doc.register.value.derive (doc.register.value.preorder.map (·.1))).value =
      doc.filled := (derive_value doc).trans hvalue
  refine ⟨hmatched, ?_, fun j => ?_⟩
  · unfold update
    simp only [Noted.value_bind, hfilled]
    exact (resolveStart_shape _).size.trans (resolveAll_edited _ _).size
  · unfold update
    simp only [Noted.value_bind, hfilled]
    obtain ⟨grammar, hstart⟩ := resolveStart_elements
      (resolveAll doc.filled (doc.register.value.preorder.map (·.1))).value
    rw [hstart]
    exact resolveAll_relinked _ _ j

/-- The document that results has the outline that it had before any element was filled. -/
theorem update_outline (h : doc.update.notes = []) :
    SameOutline doc.baseOrder.doc doc.update.value := by
  obtain ⟨_, hsize, hrelinked⟩ := update_filled h
  have houtline := fillPairs_outline doc.fillings doc.baseOrder.doc
  exact ⟨hsize.trans houtline.size, fun i => (hrelinked i).outline.trans (houtline.outline i)⟩

/-- References to grammars have been found. -/
theorem update_grammarRef (hdoc : doc.Numbered) (h : doc.update.notes = []) {t : Nat}
    (ht : doc.Listed t) (g : GrammarRefBody)
    (hg : (doc.update.value.element t).body = .grammarRef g) : g.grammar.isSome = true := by
  have hlinked := (update_sound hdoc h).linked ht
  rw [hg] at hlinked
  change (g.grammar.bind (·.target)).isSome = true at hlinked
  cases hgrammar : g.grammar with
  | none =>
      rw [hgrammar] at hlinked
      cases hlinked
  | some link => rfl

theorem baseOrder_shape (hdoc : doc.Numbered) : SameShape doc doc.baseOrder.doc := by
  obtain ⟨_, hlater, _, _⟩ := baseOrder_visits hdoc
  exact doc.withBases_shape.trans hlater.doc.sameShape

/-- The fillings of an element that derives from another are among all fillings. -/
theorem mem_fillings (hdoc : doc.Numbered) (hunlinked : doc.Unlinked) {e b : Nat}
    (he : doc.baseOrder.doc.DerivesFrom e b) {p : Nat × Nat}
    (hp : p ∈ doc.baseOrder.doc.derivedPairs e) :
    p ∈ doc.fillings ∧ p.1 ≠ p.2 ∧ doc.Listed p.1 := by
  have hshape := baseOrder_shape hdoc
  have hmem := (mem_merges_iff hdoc hunlinked e).mpr ⟨b, he⟩
  refine ⟨List.mem_flatMap.mpr ⟨e, hmem, hp⟩, ?_⟩
  have hlisted := baseOrder_listed hdoc hunlinked (Option.ne_none_iff_exists'.mpr ⟨b, he⟩)
  unfold derivedPairs at hp
  unfold DerivesFrom at he
  rw [he] at hp
  obtain ⟨hne, ht⟩ :=
    mem_pairs (hdoc.sameShape hshape) ((Listed.congr hshape e).mpr hlisted) hp
  exact ⟨hne, (Listed.congr hshape p.1).mp ht⟩

/-- **Elements take over what their bases have.** In a document about which nothing is reported an
element can be filled from its base once more. It and its children of the same names have all
attributes that those of the base had before any element was filled. They have all that those of the
base have in the end, so that nothing would change, if none of these was filled after it had been
used for filling. -/
theorem load_inherits {r : Record.Document} (h : (load r).notes = []) {e b : Nat}
    (he : (load r).value.DerivesFrom e b) :
    (∃ doc', (load r).value.extend e b = .ok doc') ∧
    (∀ p ∈ (load r).value.derivedPairs e,
      ((load r).value.element p.1).Covers ((ofRecord r).value.baseOrder.doc.element p.2)) ∧
    ((∀ p ∈ (load r).value.derivedPairs e, SettledIn (ofRecord r).value.fillings p) →
      (load r).value.extend e b = .ok (load r).value) := by
  have hdoc := ofRecord_numbered r
  have hunlinked := ofRecord_unlinked r
  unfold load at h he ⊢
  rw [Noted.value_bind] at he ⊢
  obtain ⟨_, hnotes⟩ := Noted.notes_bind_eq_nil h
  generalize (ofRecord r).value = doc at *
  obtain ⟨hmatched, _, hrelinked⟩ := update_filled hnotes
  have houtline := update_outline hnotes
  have hbase : doc.baseOrder.doc.DerivesFrom e b := (houtline.base e).symm.trans he
  have hmerged := (mem_merges_iff hdoc hunlinked e).mpr ⟨b, hbase⟩
  have hextend := extend_of_matched (houtline.matched (hmatched e hmerged b hbase))
  have hpairs : doc.update.value.derivedPairs e =
      doc.update.value.pairs doc.update.value.depthBound e b := by
    unfold derivedPairs
    unfold DerivesFrom at he
    rw [he]
  -- the fillings of the element, each with its target among the elements of the document
  have hfilling {p : Nat × Nat} (hp : p ∈ doc.update.value.derivedPairs e) :
      p ∈ doc.fillings ∧ p.1 ≠ p.2 ∧ doc.Listed p.1 ∧ p.1 < doc.baseOrder.doc.elements.size := by
    rw [houtline.derivedPairs] at hp
    obtain ⟨hmem, hne, hlisted⟩ := mem_fillings hdoc hunlinked hbase hp
    refine ⟨hmem, hne, hlisted, ?_⟩
    rw [(baseOrder_shape hdoc).size]
    exact hlisted.lt_size hdoc
  refine ⟨⟨_, hextend⟩, fun p hp => ?_, fun hsettled => ?_⟩
  · obtain ⟨hmem, _, hlisted, hsize⟩ := hfilling hp
    exact (hrelinked p.1).covers (.refl _) (fillPairs_covers_first hmem hsize)
      (update_grammarRef hdoc hnotes hlisted)
  · rw [hextend, ← hpairs]
    refine congrArg Except.ok (fillPairs_of_covers fun p hp => ?_)
    obtain ⟨_, hne, hlisted, hsize⟩ := hfilling hp
    exact (hrelinked p.1).covers (hrelinked p.2) ((hsettled p hp).covers hne hsize)
      (update_grammarRef hdoc hnotes hlisted)

end Document

/-! ## Names

Names that are registered cannot be told by computing with them, but as long as all references are
by id the rest of a document does not depend on them. -/

/-- The same result with other names. -/
def Noted.renamed (x : Noted Document) (names : Std.HashMap String Nat) : Noted Document :=
  { value := { x.value with names }, notes := x.notes }

namespace Document

/-- Register an element without making it known by its name. -/
def registerUnnamed (doc : Document) (entry : Nat × Option Nat) : Noted Document := do
  let doc := doc.modify entry.1 fun e => { e with parent := entry.2 }
  let doc ← doc.registerId entry.1
  doc.registerInlineScript entry.1

/-- Register all scripts and elements without their names. -/
def registerWithout (doc : Document) : Noted Document := do
  let doc := { doc with ids := {}, names := {}, scriptNames := {} }
  let doc ← registerAll registerScript doc doc.grammar.scripts
  registerAll registerUnnamed doc doc.preorder

theorem registerScript_names (doc : Document) (names : Std.HashMap String Nat) (i : Nat) :
    registerScript { doc with names } i = (doc.registerScript i).renamed names := by
  unfold registerScript script
  dsimp only
  split
  · rfl
  · split <;> rfl

theorem registerInlineScript_names (doc : Document) (names : Std.HashMap String Nat) (i : Nat) :
    registerInlineScript { doc with names } i = (doc.registerInlineScript i).renamed names := by
  unfold registerInlineScript element
  dsimp only
  split
  · exact registerScript_names doc names _
  · rfl

theorem registerId_names (doc : Document) (names : Std.HashMap String Nat) (i : Nat) :
    registerId { doc with names } i = (doc.registerId i).renamed names := by
  unfold registerId element label
  dsimp only
  split
  · rfl
  · split <;> rfl

theorem registerName_names (doc : Document) (i : Nat) :
    ∃ names, doc.registerName i = { doc with names } := by
  unfold registerName
  dsimp only
  split
  · exact ⟨doc.names, rfl⟩
  · exact ⟨_, rfl⟩

theorem registerElement_names (doc : Document) (names : Std.HashMap String Nat)
    (entry : Nat × Option Nat) : ∃ names', registerElement { doc with names } entry =
      (doc.registerUnnamed entry).renamed names' := by
  obtain ⟨i, parent⟩ := entry
  have hmodify : modify { doc with names } i (fun e => { e with parent }) =
      { doc.modify i (fun e => { e with parent }) with names } := rfl
  unfold registerElement registerUnnamed
  dsimp only
  rw [hmodify, registerId_names]
  generalize (doc.modify i fun e => { e with parent }).registerId i = x
  obtain ⟨names', hname⟩ := registerName_names { x.value with names } i
  refine ⟨names', ?_⟩
  change Noted.andThen _ _ = Noted.renamed (Noted.andThen _ _) _
  unfold Noted.andThen Noted.renamed
  dsimp only at hname ⊢
  rw [hname, registerInlineScript_names]
  rfl

theorem registerAll_names : ∀ (entries : List (Nat × Option Nat)) (doc : Document)
    (names : Std.HashMap String Nat), ∃ names',
      registerAll registerElement { doc with names } entries =
        (registerAll registerUnnamed doc entries).renamed names'
  | [], _, names => ⟨names, rfl⟩
  | entry :: entries, doc, names => by
      obtain ⟨names₁, h⟩ := registerElement_names doc names entry
      obtain ⟨names', hrest⟩ := registerAll_names entries (doc.registerUnnamed entry).value names₁
      refine ⟨names', ?_⟩
      unfold registerAll
      change Noted.andThen _ _ = Noted.renamed (Noted.andThen _ _) _
      unfold Noted.andThen
      rw [h]
      unfold Noted.renamed at *
      dsimp only
      rw [hrest]

/-- **Names play no part in what else is registered.** -/
theorem register_names (doc : Document) :
    ∃ names, doc.register = doc.registerWithout.renamed names := by
  unfold register registerWithout
  dsimp only
  generalize registerAll registerScript { doc with ids := {}, names := {}, scriptNames := {} }
    doc.grammar.scripts = x
  obtain ⟨names, h⟩ := registerAll_names x.value.preorder x.value x.value.names
  refine ⟨names, ?_⟩
  change Noted.andThen _ _ = Noted.renamed (Noted.andThen _ _) _
  unfold Noted.andThen
  dsimp only at h ⊢
  rw [h]
  rfl

end Document

/-! ## An attribute that comes too late

Inside `file` a number derives from the number `x` of `s`, which has no attributes of its own. `s`
derives from `t`, whose number of the same name has a length. -/

namespace Record

/-- The structure with the number that derives from another. -/
def Element.file : Record.Element :=
  .struct { id := 1, name := "file" } {} [.number { id := 2, name := "y", derives := "id:3" } {}]

/-- The structure with the number that gets its length by its name. -/
def Element.middle : Record.Element :=
  .struct { id := 4, name := "s", derives := "id:5" } {} [.number { id := 3, name := "x" } {}]

/-- The structure with the number that has the length. -/
def Element.origin : Record.Element :=
  .struct { id := 5, name := "t" } {} [.number { id := 6, name := "x" } { length := "1" }]

/-- The grammar with the file before the structures that it needs. -/
def Document.overtaken : Record.Document where
  grammar := { start := "id:1", elements := [.file, .middle, .origin] }

/-- The same grammar with the file after them. -/
def Document.inTurn : Record.Document where
  grammar := { start := "id:1", elements := [.middle, .origin, .file] }

end Record

namespace Document

/-- The elements of the structures, numbered from `i`, before they are linked. -/
def fileElements (i : Nat) : List Element :=
  [{ ident := { id := 2, name := "y" }, derives := some { reference := .id 3 }
     body := .number {} },
    { ident := { id := 1, name := "file" }, body := .struct { elements := [i] } }]

@[inherit_doc fileElements]
def middleElements (i : Nat) : List Element :=
  [{ ident := { id := 3, name := "x" }, body := .number {} },
    { ident := { id := 4, name := "s" }, derives := some { reference := .id 5 }
      body := .struct { elements := [i] } }]

@[inherit_doc fileElements]
def originElements (i : Nat) : List Element :=
  [{ ident := { id := 6, name := "x" }, body := .number { length := some (.constant 1) } },
    { ident := { id := 5, name := "t" }, body := .struct { elements := [i] } }]

/-- A document of such elements before it is linked. -/
def starting (elements : List Element) : Document :=
  .ofParts "" { start := some { reference := .id 1 }, elements := [1, 3, 5] } elements.toArray #[]

/-- The document with the file first. -/
def overtaken : Document := starting (fileElements 0 ++ middleElements 2 ++ originElements 4)

/-- The document with the file last. -/
def inTurn : Document := starting (middleElements 0 ++ originElements 2 ++ fileElements 4)

theorem ofRecord_structures : ofRecord .overtaken = { value := overtaken } ∧
    ofRecord .inTurn = { value := inTurn } := by
  have hconstant : Expression.parse? "1" = some (.constant 1) := by decide +kernel
  have hlink {α : Type} : (Link.parse? "id:1" : Option (Link α)) = some { reference := .id 1 } ∧
      (Link.parse? "id:3" : Option (Link α)) = some { reference := .id 3 } ∧
      (Link.parse? "id:5" : Option (Link α)) = some { reference := .id 5 } := ⟨rfl, rfl, rfl⟩
  unfold ofRecord Record.Document.overtaken Record.Document.inTurn Record.Element.file
    Record.Element.middle Record.Element.origin
  constructor
  · simp only [Build.addElements, Build.addElement, Build.struct, Build.number, hconstant, hlink]
    rfl
  · simp only [Build.addElements, Build.addElement, Build.struct, Build.number, hconstant, hlink]
    rfl

/-- With the file last the number of the file has all that its base has. -/
theorem load_inherits_inTurn : (load .inTurn).notes = [] ∧ (load .inTurn).value.DerivesFrom 4 0 ∧
    (load .inTurn).value.extend 4 0 = .ok (load .inTurn).value := by
  obtain ⟨names, hnames⟩ := register_names inTurn
  have hnotes : (load .inTurn).notes = [] := by
    unfold load update
    rw [ofRecord_structures.2, Noted.notes_bind, hnames]
    clear hnames
    cbv
  have hbase : (load .inTurn).value.DerivesFrom 4 0 := by
    unfold load update DerivesFrom
    rw [ofRecord_structures.2, Noted.value_bind, hnames]
    clear hnames
    cbv
  have hpairs : (load .inTurn).value.derivedPairs 4 = [(4, 0)] := by
    unfold load update
    rw [ofRecord_structures.2, Noted.value_bind, hnames]
    clear hnames
    cbv
  have hfillings : (ofRecord .inTurn).value.fillings = [(1, 3), (0, 2), (4, 0)] := by
    rw [ofRecord_structures.2]
    unfold fillings baseOrder withBases
    rw [hnames]
    clear hnames
    cbv
  refine ⟨hnotes, hbase, (load_inherits hnotes hbase).2.2 fun p hp => ?_⟩
  rw [hpairs] at hp
  rw [List.mem_singleton.mp hp, hfillings]
  exact ⟨[(1, 3), (0, 2)], [], rfl, fun q hq _ => (List.not_mem_nil hq).elim⟩

/-- **With the file first the number of the file is filled before its base is.** It has no length,
and gets one when it is filled once more. -/
theorem load_overtaken : (load .overtaken).notes = [] ∧
    (load .overtaken).value.DerivesFrom 0 2 ∧
    ((load .overtaken).value.element 0).length = none ∧
    ∃ doc', (load .overtaken).value.extend 0 2 = .ok doc' ∧
      (doc'.element 0).length = some (.constant 1) := by
  obtain ⟨names, hnames⟩ := register_names overtaken
  have hextend : ((load .overtaken).value.extend 0 2).toOption.map
      (fun doc => (doc.element 0).length) = some (some (.constant 1)) := by
    unfold load update
    rw [ofRecord_structures.1, Noted.value_bind, hnames]
    clear hnames
    cbv
  have hloaded : (load .overtaken).notes = [] ∧ ((load .overtaken).value.element 0).base = some 2 ∧
      ((load .overtaken).value.element 0).length = none := by
    unfold load update
    simp only [ofRecord_structures.1, Noted.notes_bind, Noted.value_bind, hnames]
    clear hnames
    refine ⟨by cbv, by cbv, by cbv⟩
  obtain ⟨hnotes, hbase, hlength⟩ := hloaded
  refine ⟨hnotes, hbase, hlength, ?_⟩
  cases hresult : (load .overtaken).value.extend 0 2 with
  | error m =>
      rw [hresult] at hextend
      cases hextend
  | ok doc' =>
      rw [hresult] at hextend
      exact ⟨doc', rfl, Option.some.inj hextend⟩

end Document

end BinaryGrammar
