import BinaryGrammar.Proofs.Gaps
import BinaryGrammar.Proofs.Reader

/-!
# Extending one element from another

An element is extended together with its namesakes: each named child of the one goes with the first
child of that name of the other, and so on downwards. The pairs that are come to in this way are
visited twice. First their kinds are compared, and the first difference ends the attempt. Then they
are filled, one after the other.

In a forest the walk over the pairs is never cut short by the bound on its depth, so it is known
exactly when an attempt fails and with which pair. It fails before anything has been written, and
whatever is come to while writing has been compared before: `extend_fails_exactly`.

If neither element lies inside the other, no element is both read and written. Then the order of the
fillings does not matter, every element of a pair gets what it lacks and the other has, and a second
attempt finds nothing left to fill: `extend_fills_exactly`.
-/

set_option autoImplicit false

namespace BinaryGrammar

/-! ## Links -/

/-- The link in a slot of a body, with what it has been found to refer to. There is one grammar
only, and it counts as number zero. -/
def Body.link? : Body → Slot → Option (Link Nat)
  | .offset b, .relativeTo => b.relativeTo
  | .offset b, .references => b.references
  | .offset b, .referencedSize => b.referencedSize
  | .structRef b, .target => b.target
  | .grammarRef b, .grammar =>
    b.grammar.map fun l => { reference := l.reference, target := l.target.map fun _ => 0 }
  | .custom b, .script => b.script
  | _, _ => none

/-- The link in a slot of an element. -/
def Element.link? (e : Element) (s : Slot) : Option (Link Nat) := e.body.link? s

/-- A link is taken over as a reference that is still to be resolved. -/
theorem Fill.link?_body? {d b body : Body} (h : body? d b = some body) (s : Slot) :
    body.link? s = (d.link? s).or ((b.link? s).map Link.unresolved) := by
  cases d <;> cases b <;> cases h
  case grammarRef.grammarRef =>
    cases s with
    | grammar =>
        simp only [Body.link?, grammarRef, link, Option.map_or, Option.map_map]
        rfl
    | _ => rfl
  all_goals cases s <;> rfl

namespace Element

theorem link?_fillFrom {own base : Element} (h : own.kind = base.kind) (s : Slot) :
    (own.fillFrom base).link? s = (own.link? s).or ((base.link? s).map Link.unresolved) := by
  obtain ⟨body, hbody, hfill⟩ := exists_body? h
  rw [hfill]
  exact Fill.link?_body? hbody s

/-- What filling leaves alone in an element. -/
def standing (e : Element) : Nat × String × Option Nat × Option (Link Nat) × List Nat :=
  (e.ident.id, e.name, e.parent, e.derives, e.children)

theorem fillFrom_standing (own base : Element) : (own.fillFrom base).standing = own.standing := by
  have hchildren : (own.fillFrom base).children = own.children :=
    congrArg (·.2.2) (fillFrom_outline own base)
  unfold standing
  rw [hchildren]
  unfold fillFrom
  split <;> rfl

end Element

namespace Document

variable {doc doc' : Document} {t s : Nat}

/-! ## Forests -/

/-- One element is a child of another. -/
def ChildOf (doc : Document) (c p : Nat) : Prop := c ∈ (doc.element p).children

/-- One element is another, or lies inside it. The other is then one of its ancestors; each element
counts among its own. -/
def InsideOf (doc : Document) : Nat → Nat → Prop := Relation.ReflTransGen doc.ChildOf

/-- The lists of children form a forest. -/
structure ChildForest (doc : Document) : Prop where
  /-- No element has two parents. -/
  once : ∀ {c p q : Nat}, doc.ChildOf c p → doc.ChildOf c q → p = q
  /-- No element lies inside one of its children. -/
  acyclic : ∀ i, ¬Relation.TransGen doc.ChildOf i i

/-- All that lies inside an element is nested less than so many levels deep, the element itself
included. -/
def Levels (doc : Document) : Nat → Nat → Prop
  | 0, _ => False
  | depth + 1, i => ∀ c ∈ (doc.element i).children, doc.Levels depth c

theorem ChildOf.lt_size {c p : Nat} (h : doc.ChildOf c p) : p < doc.elements.size := by
  by_contra hp
  unfold ChildOf at h
  rw [BaseOrder.element_of_size_le (Nat.le_of_not_lt hp)] at h
  cases h

namespace ChildForest

variable (hdoc : doc.ChildForest)
include hdoc

/-- The elements above an element are all different, so no more levels are above it than there are
elements. -/
theorem levels_below : ∀ (depth i : Nat) (above : List Nat), above.Nodup →
    (∀ a ∈ above, a < doc.elements.size ∧ Relation.TransGen doc.ChildOf i a) →
    doc.elements.size < depth + above.length → doc.Levels depth i := by
  intro depth
  induction depth with
  | zero =>
      intro i above hnodup habove hlong
      have hrange : above ⊆ List.range doc.elements.size :=
        fun a ha => List.mem_range.mpr (habove a ha).1
      have hle := (hnodup.subperm hrange).length_le
      rw [List.length_range] at hle
      omega
  | succ depth ih =>
      intro i above hnodup habove hlong c hc
      have hnew : i ∉ above := fun hi => hdoc.acyclic i (habove i hi).2
      refine ih c (i :: above) (List.nodup_cons.mpr ⟨hnew, hnodup⟩) ?_ ?_
      · intro a ha
        rcases List.mem_cons.mp ha with rfl | ha
        · exact ⟨ChildOf.lt_size hc, .single hc⟩
        · exact ⟨(habove a ha).1, .head hc (habove a ha).2⟩
      · rw [List.length_cons]
        omega

/-- The bound on the depth is never reached. -/
theorem levels (i : Nat) : doc.Levels doc.depthBound i :=
  hdoc.levels_below doc.depthBound i [] List.nodup_nil (fun a ha => by cases ha)
    (Nat.lt_succ_self _)

/-- Of two elements that something lies inside of, one lies inside the other. -/
theorem nested {x : Nat} (ht : doc.InsideOf x t) (hs : doc.InsideOf x s) :
    doc.InsideOf t s ∨ doc.InsideOf s t :=
  Relation.ReflTransGen.total_of_right_unique (fun _ _ _ h h' => hdoc.once h h') ht hs

end ChildForest

/-! ## Namesakes -/

/-- From a pair of elements to a named child of the first, with the first child of the second that
has this name. -/
structure Namesakes (doc : Document) (p q : Nat × Nat) : Prop where
  child : q.1 ∈ (doc.element p.1).children
  named : (doc.element q.1).name ≠ ""
  first : (doc.element p.2).children.find?
    (fun c => (doc.element c).name == (doc.element q.1).name) = some q.2

/-- One pair of elements is come to from another by going from namesakes to namesakes. -/
def Paired (doc : Document) : Nat × Nat → Nat × Nat → Prop :=
  Relation.ReflTransGen doc.Namesakes

theorem mem_matchedChildren {p q : Nat × Nat} :
    q ∈ doc.matchedChildren p.1 p.2 ↔ doc.Namesakes p q := by
  unfold matchedChildren
  rw [List.mem_filterMap]
  constructor
  · rintro ⟨d, hd, hq⟩
    dsimp only at hq
    split at hq
    · cases hq
    · rename_i hname
      obtain ⟨b, hb, rfl⟩ := Option.map_eq_some_iff.mp hq
      exact ⟨hd, fun h => hname (String.isEmpty_iff.mpr h), hb⟩
  · intro h
    refine ⟨q.1, h.child, ?_⟩
    dsimp only
    rw [if_neg fun hname => h.named (String.isEmpty_iff.mp hname), h.first]
    rfl

namespace Paired

/-- A pair that is come to lies inside the pair where the walk began. -/
theorem inside {p q : Nat × Nat} (h : doc.Paired p q) :
    doc.InsideOf q.1 p.1 ∧ doc.InsideOf q.2 p.2 := by
  induction h with
  | refl => exact ⟨.refl, .refl⟩
  | tail _ hstep ih =>
      exact ⟨.head hstep.child ih.1, .head (List.mem_of_find?_eq_some hstep.first) ih.2⟩

/-- In a forest an element is come to with one other only. -/
theorem unique (hdoc : doc.ChildForest) {p : Nat × Nat} {d a b : Nat}
    (ha : doc.Paired p (d, a)) (hb : doc.Paired p (d, b)) : a = b := by
  -- no walk comes back to the element where it began
  have hback {q r : Nat × Nat} (hq : doc.Paired p q) (hr : doc.Namesakes q r)
      (heq : r.1 = p.1) : False := by
    have hchild : doc.ChildOf p.1 q.1 := by
      rw [← heq]
      exact hr.child
    exact hdoc.acyclic p.1 (.head' hchild hq.inside.1)
  generalize hq : (d, a) = q at ha
  induction ha generalizing d a b with
  | refl =>
      rcases Relation.ReflTransGen.cases_tail hb with heq | ⟨r, hr, hstep⟩
      · rw [← hq] at heq
        cases heq
        rfl
      · exact (hback hr hstep (by rw [← hq])).elim
  | @tail q' q'' hq' hstep ih =>
      subst hq
      rcases Relation.ReflTransGen.cases_tail hb with heq | ⟨r, hr, hstep'⟩
      · exact (hback hq' hstep (show d = p.1 from congrArg Prod.fst heq)).elim
      · have hparent : q'.1 = r.1 := hdoc.once hstep.child hstep'.child
        have hother : q'.2 = r.2 := ih (d := q'.1) (b := r.2) (hparent ▸ hr) rfl
        have hfirst := hstep.first
        rw [hother, hstep'.first] at hfirst
        exact (Option.some.inj hfirst).symm

end Paired

/-! ## The walk over the pairs -/

/-- The pairs that are come to from a pair, depth first: the pair itself, then all from the first of
its namesakes, and so on, at most `depth` levels down. -/
def visits (doc : Document) : Nat → Nat × Nat → List (Nat × Nat)
  | 0, _ => []
  | depth + 1, p => p :: (doc.matchedChildren p.1 p.2).flatMap (doc.visits depth)

/-- The two elements of a pair are of different kinds. -/
def Differs (doc : Document) (p : Nat × Nat) : Prop :=
  (doc.element p.1).kind ≠ (doc.element p.2).kind

instance (doc : Document) : DecidablePred doc.Differs :=
  fun p => inferInstanceAs (Decidable ((doc.element p.1).kind ≠ (doc.element p.2).kind))

theorem paired_of_mem_visits : ∀ {depth : Nat} {p q : Nat × Nat},
    q ∈ doc.visits depth p → doc.Paired p q := by
  intro depth
  induction depth with
  | zero => intro p q h; cases h
  | succ depth ih =>
      intro p q h
      rcases List.mem_cons.mp h with rfl | h
      · exact .refl
      · obtain ⟨r, hr, hq⟩ := List.mem_flatMap.mp h
        exact .head (mem_matchedChildren.mp hr) (ih hq)

theorem mem_visits_of_paired : ∀ {depth : Nat} {p q : Nat × Nat}, doc.Levels depth p.1 →
    doc.Paired p q → q ∈ doc.visits depth p := by
  intro depth
  induction depth with
  | zero => intro p q hlevels; cases hlevels
  | succ depth ih =>
      intro p q hlevels h
      rcases Relation.ReflTransGen.cases_head h with rfl | ⟨r, hstep, hrest⟩
      · exact List.mem_cons_self
      · refine List.mem_cons_of_mem _ (List.mem_flatMap.mpr ⟨r, mem_matchedChildren.mpr hstep, ?_⟩)
        exact ih (hlevels r.1 hstep.child) hrest

/-- **In a forest the walk visits exactly the pairs that are come to.** -/
theorem mem_visits_iff (hdoc : doc.ChildForest) {p q : Nat × Nat} :
    q ∈ doc.visits doc.depthBound p ↔ doc.Paired p q :=
  ⟨paired_of_mem_visits, mem_visits_of_paired (hdoc.levels p.1)⟩

/-- The labels of a pair of different kinds. -/
def mismatchOf (doc : Document) (p : Nat × Nat) : Mismatch := ⟨doc.label p.1, doc.label p.2⟩

/-- The first mismatch of some walks is that of the walks joined together. -/
theorem firstMismatch_eq {f : Nat × Nat → Option Mismatch} {g : Nat × Nat → List (Nat × Nat)} :
    ∀ ps : List (Nat × Nat),
      (∀ p, f p = ((g p).find? (doc.Differs ·)).map doc.mismatchOf) →
      firstMismatch f ps = ((ps.flatMap g).find? (doc.Differs ·)).map doc.mismatchOf := by
  intro ps hf
  induction ps with
  | nil => rfl
  | cons p ps ih =>
      unfold firstMismatch
      rw [hf p, List.flatMap_cons, List.find?_append]
      cases (g p).find? (doc.Differs ·) with
      | some q => rfl
      | none => exact ih

/-- **The check finds the first pair on the walk whose kinds differ.** -/
theorem mismatch?_eq_find? : ∀ (depth : Nat) (p : Nat × Nat), doc.mismatch? depth p.1 p.2 =
    ((doc.visits depth p).find? (doc.Differs ·)).map doc.mismatchOf := by
  intro depth
  induction depth with
  | zero => intro p; rfl
  | succ depth ih =>
      intro p
      unfold mismatch? visits
      by_cases hkind : doc.Differs p
      · rw [List.find?_cons_of_pos (p := (doc.Differs ·)) (decide_eq_true hkind)]
        exact if_pos hkind
      · rw [List.find?_cons_of_neg (p := (doc.Differs ·)) (by simpa using hkind)]
        exact (if_neg hkind).trans (firstMismatch_eq _ fun q => ih q)

/-- An attempt fails with the first pair on the walk whose kinds differ. -/
theorem extend_eq_error_iff {m : Mismatch} : doc.extend t s = .error m ↔
    t ≠ s ∧ ∃ p, (doc.visits doc.depthBound (t, s)).find? (doc.Differs ·) = some p ∧
      m = doc.mismatchOf p := by
  unfold extend
  by_cases hts : t = s
  · rw [if_pos hts]
    exact ⟨nofun, fun h => absurd hts h.1⟩
  · rw [if_neg hts, mismatch?_eq_find? doc.depthBound (t, s)]
    cases (doc.visits doc.depthBound (t, s)).find? (doc.Differs ·) with
    | none =>
        refine ⟨nofun, fun h => ?_⟩
        obtain ⟨_, p, hp, _⟩ := h
        cases hp
    | some p =>
        constructor
        · intro h
          cases h
          exact ⟨hts, p, rfl, rfl⟩
        · rintro ⟨_, q, hq, rfl⟩
          cases hq
          rfl

/-- The pairs that are filled are visited by the check. -/
theorem pairs_subset_visits : ∀ {depth : Nat} {p q : Nat × Nat},
    q ∈ doc.pairs depth p.1 p.2 → q ∈ doc.visits depth p := by
  intro depth
  induction depth with
  | zero => intro p q h; cases h
  | succ depth ih =>
      intro p q h
      unfold pairs at h
      split at h
      · cases h
      · rcases List.mem_cons.mp h with rfl | h
        · exact List.mem_cons_self
        · obtain ⟨r, hr, hq⟩ := List.mem_flatMap.mp h
          exact List.mem_cons_of_mem _ (List.mem_flatMap.mpr ⟨r, hr, ih hq⟩)

/-- Where no element is come to with itself, all pairs that are visited are filled. -/
theorem pairs_eq_visits : ∀ {depth : Nat} {p : Nat × Nat},
    (∀ q, doc.Paired p q → q.1 ≠ q.2) → doc.pairs depth p.1 p.2 = doc.visits depth p := by
  intro depth
  induction depth with
  | zero => intro p _; rfl
  | succ depth ih =>
      intro p hne
      unfold pairs visits
      rw [if_neg (hne p .refl)]
      refine congrArg (p :: ·) (List.flatMap_congr fun q hq => ih fun r hr => ?_)
      exact hne r (.head (mem_matchedChildren.mp hq) hr)

/-- What is filled is of one kind if the attempt succeeds. -/
theorem kind_eq_of_extend (h : doc.extend t s = .ok doc') {p : Nat × Nat}
    (hp : p ∈ doc.pairs doc.depthBound t s) :
    (doc.element p.1).kind = (doc.element p.2).kind := by
  by_contra hkind
  have hvisit : p ∈ doc.visits doc.depthBound (t, s) := pairs_subset_visits (p := (t, s)) hp
  cases hfind : (doc.visits doc.depthBound (t, s)).find? (doc.Differs ·) with
  | none => exact List.find?_eq_none.mp hfind p hvisit (decide_eq_true hkind)
  | some q =>
      have hts : t ≠ s := by
        rintro rfl
        unfold depthBound pairs at hp
        rw [if_pos rfl] at hp
        cases hp
      rw [extend_eq_error_iff.mpr ⟨hts, q, hfind, rfl⟩] at h
      cases h

/-! ## Three structures

`derived` and `other` can be extended from `base` or not: `base` has two numbers of one name, of
which the first counts, and a reference; `derived` has the same names, and `other` has a string of
the name of the numbers. -/

/-- A document whose children have lower numbers than their parents, and one parent each. -/
theorem ChildForest.of_below
    (hbelow : ∀ p < doc.elements.size, ∀ c ∈ (doc.element p).children, c < p)
    (honce : ∀ p < doc.elements.size, ∀ q < doc.elements.size, ∀ c ∈ (doc.element p).children,
      c ∈ (doc.element q).children → p = q) : doc.ChildForest where
  once := fun hp hq => honce _ hp.lt_size _ hq.lt_size _ hp hq
  acyclic := fun i h => by
    have hlt : ∀ {a b : Nat}, Relation.TransGen doc.ChildOf a b → a < b := by
      intro a b hab
      induction hab with
      | single hc => exact hbelow _ hc.lt_size _ hc
      | tail _ hc ih => exact Nat.lt_trans ih (hbelow _ hc.lt_size _ hc)
    exact Nat.lt_irrefl i (hlt h)

/-- An element without a parent lies inside itself only. -/
theorem not_insideOf_of_top {i j : Nat} (hne : i ≠ j)
    (htop : ∀ p < doc.elements.size, i ∉ (doc.element p).children) : ¬doc.InsideOf i j := by
  intro h
  rcases Relation.ReflTransGen.cases_head h with heq | ⟨p, hp, _⟩
  · exact hne heq
  · exact htop p (ChildOf.lt_size hp) hp

/-- The document of the three structures. -/
def siblings : Document :=
  .ofParts "" {}
    #[{ ident := { name := "x" }, body := .number { length := some (.constant 4) } },
      { ident := { name := "x" }, body := .number { length := some (.constant 8) } },
      { ident := { name := "r" }
        body := .structRef { target := some { reference := .id 9, target := some 3 } } },
      { ident := { name := "base" }
        body := .struct { endian := some .big, elements := [0, 1, 2] } },
      { ident := { name := "x" }, body := .number {} },
      { ident := { name := "x" }, body := .number { length := some (.constant 2) } },
      { ident := { name := "r" }, body := .structRef {} },
      { ident := { name := "derived" }, body := .struct { elements := [4, 5, 6] } },
      { ident := { name := "x" }, body := .string {} },
      { ident := { name := "other" }, body := .struct { elements := [8] } }] #[]

theorem siblings_forest : siblings.ChildForest := .of_below (by decide) (by decide)

/-! ## Extending in place

A document that is changed while it is walked over could be left half changed. Here an attempt that
fails says what it leaves behind, and it also fails if a pair of different kinds is come to while
the document is being changed. -/

/-- Compare the kinds of a pair. -/
def checkPair (p : Nat × Nat) : EStateM Mismatch Document Unit := do
  let doc ← get
  if doc.Differs p then throw (doc.mismatchOf p) else pure ()

/-- Fill the first element of a pair from the second, if there is a way to. -/
def fillInPlace (p : Nat × Nat) : EStateM Mismatch Document Unit := do
  let doc ← get
  match Fill.body? (doc.element p.1).body (doc.element p.2).body with
  | some _ => set (doc.fillPair p)
  | none => throw (doc.mismatchOf p)

/-- Check all pairs, and then fill them. -/
def extendInPlace (t s : Nat) : EStateM Mismatch Document Unit :=
  if t = s then pure ()
  else do
    let doc ← get
    (doc.visits doc.depthBound (t, s)).forM checkPair
    (doc.pairs doc.depthBound t s).forM fillInPlace

theorem checkPairs_eq : ∀ (ps : List (Nat × Nat)) (doc : Document), ps.forM checkPair doc =
    match ps.find? (doc.Differs ·) with
    | some p => .error (doc.mismatchOf p) doc
    | none => .ok () doc := by
  intro ps doc
  induction ps with
  | nil => rfl
  | cons p ps ih =>
      change (checkPair p >>= fun _ => ps.forM checkPair) doc = _
      have hrun : checkPair p doc =
          if doc.Differs p then .error (doc.mismatchOf p) doc else .ok () doc := by
        change (if doc.Differs p then throw (doc.mismatchOf p) else pure () :
          EStateM Mismatch Document Unit) doc = _
        split <;> rfl
      by_cases hp : doc.Differs p
      · rw [if_pos hp] at hrun
        rw [Reader.bind_of_error hrun,
          List.find?_cons_of_pos (p := (doc.Differs ·)) (decide_eq_true hp)]
      · rw [if_neg hp] at hrun
        rw [Reader.bind_of_ok hrun, ih,
          List.find?_cons_of_neg (p := (doc.Differs ·)) (by simpa using hp)]

/-- Pairs of one kind are filled to the last, as filling leaves all kinds as they are. -/
theorem fillPairs_inPlace : ∀ (ps : List (Nat × Nat)) (doc : Document),
    (∀ p ∈ ps, ¬doc.Differs p) → ps.forM fillInPlace doc = .ok () (ps.foldl fillPair doc) := by
  intro ps
  induction ps with
  | nil => intro doc _; rfl
  | cons p ps ih =>
      intro doc hkinds
      have hrun : fillInPlace p doc = .ok () (doc.fillPair p) := by
        have hkind := hkinds p List.mem_cons_self
        cases hbody : Fill.body? (doc.element p.1).body (doc.element p.2).body with
        | none => exact absurd (Fill.body?_eq_none_iff.mp hbody) hkind
        | some body =>
            unfold fillInPlace
            rw [Reader.get_bind]
            simp only [hbody]
            rfl
      change (fillInPlace p >>= fun _ => ps.forM fillInPlace) doc = _
      rw [Reader.bind_of_ok hrun, List.foldl_cons]
      refine ih _ fun q hq => ?_
      unfold Differs
      rw [(doc.fillPair_outline p).kind, (doc.fillPair_outline p).kind]
      exact hkinds q (List.mem_cons_of_mem _ hq)

/-- **Extending in place changes everything or nothing.** -/
theorem extendInPlace_eq (t s : Nat) (doc : Document) : extendInPlace t s doc =
    match doc.extend t s with
    | .ok doc' => .ok () doc'
    | .error m => .error m doc := by
  unfold extendInPlace
  by_cases hts : t = s
  · have hextend : doc.extend t s = .ok doc := if_pos hts
    rw [if_pos hts, hextend]
    rfl
  · rw [if_neg hts, Reader.get_bind]
    have hcheck := checkPairs_eq (doc.visits doc.depthBound (t, s)) doc
    cases hfind : (doc.visits doc.depthBound (t, s)).find? (doc.Differs ·) with
    | some p =>
        rw [hfind] at hcheck
        rw [extend_eq_error_iff.mpr ⟨hts, p, hfind, rfl⟩, Reader.bind_of_error hcheck]
    | none =>
        rw [hfind] at hcheck
        have hmatched : doc.Matched t s := by
          refine Or.inr ?_
          rw [mismatch?_eq_find? doc.depthBound (t, s), hfind]
          rfl
        have hextend := extend_of_matched hmatched
        rw [hextend, Reader.bind_of_ok hcheck]
        refine fillPairs_inPlace _ doc fun p hp => ?_
        exact not_not_intro (kind_eq_of_extend hextend hp)

/-- **When extending fails.** In a forest, also where one element lies inside the other, an attempt
to extend an element from another fails exactly if they are two and some pair that is come to from
them is of different kinds. It fails with the labels of the first such pair, depth first, and leaves
the document as it was. If it succeeds, every pair that is come to while the document is being
changed is of one kind at that time. -/
theorem extend_fails_exactly (hdoc : doc.ChildForest) (t s : Nat) :
    ((∃ m, doc.extend t s = .error m) ↔ t ≠ s ∧ ∃ p, doc.Paired (t, s) p ∧ doc.Differs p) ∧
    (∀ p, p ∈ doc.visits doc.depthBound (t, s) ↔ doc.Paired (t, s) p) ∧
    (∀ m, doc.extend t s = .error m →
      (∃ before p after, doc.visits doc.depthBound (t, s) = before ++ p :: after ∧
        (∀ q ∈ before, ¬doc.Differs q) ∧ doc.Differs p ∧
        m = ⟨(doc.element p.1).label, (doc.element p.2).label⟩) ∧
      extendInPlace t s doc = .error m doc) ∧
    ∀ doc', doc.extend t s = .ok doc' →
      (∀ before p after, doc.pairs doc.depthBound t s = before ++ p :: after →
        ¬(before.foldl fillPair doc).Differs p) ∧
      extendInPlace t s doc = .ok () doc' := by
  refine ⟨?_, fun p => mem_visits_iff hdoc, fun m h => ?_, fun doc' h => ?_⟩
  · constructor
    · rintro ⟨m, h⟩
      obtain ⟨hts, p, hp, _⟩ := extend_eq_error_iff.mp h
      refine ⟨hts, p, (mem_visits_iff hdoc).mp (List.mem_of_find?_eq_some hp), ?_⟩
      exact of_decide_eq_true (List.find?_some (p := (doc.Differs ·)) hp)
    · rintro ⟨hts, p, hp, hkind⟩
      cases hfind : (doc.visits doc.depthBound (t, s)).find? (doc.Differs ·) with
      | some q => exact ⟨_, extend_eq_error_iff.mpr ⟨hts, q, hfind, rfl⟩⟩
      | none =>
          have hnone := List.find?_eq_none.mp hfind p ((mem_visits_iff hdoc).mpr hp)
          exact absurd (decide_eq_true hkind) hnone
  · obtain ⟨_, p, hp, hm⟩ := extend_eq_error_iff.mp h
    obtain ⟨hkind, before, after, hsplit, hbefore⟩ := List.find?_eq_some_iff_append.mp hp
    refine ⟨⟨before, p, after, hsplit, fun q hq => ?_, of_decide_eq_true hkind, hm⟩, ?_⟩
    · simpa using hbefore q hq
    · rw [extendInPlace_eq, h]
  · refine ⟨fun before p after hsplit => ?_, ?_⟩
    · have hp : p ∈ doc.pairs doc.depthBound t s := by
        rw [hsplit]
        exact List.mem_append_right _ List.mem_cons_self
      unfold Differs
      rw [(fillPairs_outline before doc).kind, (fillPairs_outline before doc).kind]
      exact not_not_intro (kind_eq_of_extend h hp)
    · rw [extendInPlace_eq, h]

/-- The string is no number, although the structures around them are of one kind. -/
theorem extend_fails_exactly_siblings :
    siblings.extend 9 3 = .error ⟨⟨.string, 0, "x"⟩, ⟨.number, 0, "x"⟩⟩ ∧
    extendInPlace 9 3 siblings = .error ⟨⟨.string, 0, "x"⟩, ⟨.number, 0, "x"⟩⟩ siblings ∧
    siblings.Paired (9, 3) (8, 0) := by
  have hextend : siblings.extend 9 3 = .error ⟨⟨.string, 0, "x"⟩, ⟨.number, 0, "x"⟩⟩ :=
    extend_eq_error_iff.mpr ⟨by decide, (8, 0), by decide, by decide⟩
  obtain ⟨_, hvisits, hfails, _⟩ := extend_fails_exactly siblings_forest 9 3
  exact ⟨hextend, (hfails _ hextend).2, (hvisits (8, 0)).mp (by decide)⟩

/-! ## What is filled -/

theorem fillPairs_standing : ∀ (ps : List (Nat × Nat)) (doc : Document) (i : Nat),
    ((ps.foldl fillPair doc).element i).standing = (doc.element i).standing := by
  intro ps
  induction ps with
  | nil => intro doc i; rfl
  | cons p ps ih =>
      intro doc i
      rw [List.foldl_cons, ih, element_fillPair]
      split
      · exact Element.fillFrom_standing _ _
      · rfl

/-- An element that is always filled from one other, which is not filled itself, is in the end
filled from what that was at first. -/
theorem element_fillPairs_of_mem {d b : Nat} : ∀ (ps : List (Nat × Nat)) (doc : Document),
    (∀ p ∈ ps, p.1 = d → p.2 = b) → (∀ p ∈ ps, p.1 ≠ b) → (d, b) ∈ ps →
    d < doc.elements.size →
    (ps.foldl fillPair doc).element d = (doc.element d).fillFrom (doc.element b) := by
  intro ps
  induction ps with
  | nil => intro doc _ _ hmem; cases hmem
  | cons p ps ih =>
      intro doc hone hsource hmem hd
      have hone' : ∀ q ∈ ps, q.1 = d → q.2 = b := fun q hq => hone q (List.mem_cons_of_mem _ hq)
      have hsource' : ∀ q ∈ ps, q.1 ≠ b := fun q hq => hsource q (List.mem_cons_of_mem _ hq)
      have hsize : d < (doc.fillPair p).elements.size := by
        rw [(doc.fillPair_outline p).size]
        exact hd
      have hb : (doc.fillPair p).element b = doc.element b := by
        rw [element_fillPair, if_neg fun h => hsource p List.mem_cons_self h.1]
      rw [List.foldl_cons]
      by_cases hp : p.1 = d
      · have hfilled : (doc.fillPair p).element d = (doc.element d).fillFrom (doc.element b) := by
          rw [element_fillPair, if_pos ⟨hp, hd⟩, hone p List.mem_cons_self hp]
        by_cases hagain : (d, b) ∈ ps
        · -- the second filling finds everything in its place
          rw [ih _ hone' hsource' hagain hsize, hfilled, hb]
          exact Element.fillFrom_eq_self_iff.mpr (Element.fillFrom_covers _ _)
        · rw [element_fillPairs ps fun q hq hqd => ?_, hfilled]
          have hq' : q = (d, b) := Prod.ext hqd (hone' q hq hqd)
          rw [hq'] at hq
          exact hagain hq
      · have hmem' : (d, b) ∈ ps := by
          rcases List.mem_cons.mp hmem with heq | hmem
          · rw [← heq] at hp
            exact absurd rfl hp
          · exact hmem
        rw [ih _ hone' hsource' hmem' hsize, hb, element_fillPair, if_neg fun h => hp h.1]

/-- An element that has a name is there. -/
theorem lt_size_of_named {i : Nat} (h : (doc.element i).name ≠ "") : i < doc.elements.size := by
  by_contra hi
  rw [BaseOrder.element_of_size_le (Nat.le_of_not_lt hi)] at h
  exact h rfl

section

variable (hdoc : doc.ChildForest) (hts : ¬doc.InsideOf t s) (hst : ¬doc.InsideOf s t)
include hdoc hts hst

/-- Nothing lies inside both elements, so what is filled is never what something is filled from. -/
theorem Paired.apart {p q : Nat × Nat} (hp : doc.Paired (t, s) p) (hq : doc.Paired (t, s) q) :
    p.1 ≠ q.2 := by
  intro heq
  have hboth := hp.inside.1
  rw [heq] at hboth
  rcases hdoc.nested hboth hq.inside.2 with hin | hin
  · exact hts hin
  · exact hst hin

theorem mem_pairs_iff {p : Nat × Nat} :
    p ∈ doc.pairs doc.depthBound t s ↔ doc.Paired (t, s) p := by
  rw [pairs_eq_visits (p := (t, s)) fun q hq => hq.apart hdoc hts hst hq]
  exact mem_visits_iff hdoc

/-- The second element of a pair stays as it is. -/
theorem Paired.element_source {d b : Nat} (hp : doc.Paired (t, s) (d, b)) :
    ((doc.pairs doc.depthBound t s).foldl fillPair doc).element b = doc.element b :=
  element_fillPairs _ fun _ hq => ((mem_pairs_iff hdoc hts hst).mp hq).apart hdoc hts hst hp

/-- The first element of a pair is filled from the second. -/
theorem Paired.element_target (ht : t < doc.elements.size) {d b : Nat}
    (hp : doc.Paired (t, s) (d, b)) :
    ((doc.pairs doc.depthBound t s).foldl fillPair doc).element d =
      (doc.element d).fillFrom (doc.element b) := by
  have hd : d < doc.elements.size := by
    rcases Relation.ReflTransGen.cases_tail hp with heq | ⟨r, _, hstep⟩
    · cases heq
      exact ht
    · exact lt_size_of_named hstep.named
  refine element_fillPairs_of_mem _ doc ?_ ?_ ((mem_pairs_iff hdoc hts hst).mpr hp) hd
  · rintro ⟨d', b'⟩ hq rfl
    exact ((mem_pairs_iff hdoc hts hst).mp hq).unique hdoc hp
  · intro q hq
    exact ((mem_pairs_iff hdoc hts hst).mp hq).apart hdoc hts hst hp

end

/-- **What extending does.** In a forest let an element be extended from another, neither of which
is an ancestor of the other. Then in every pair that is come to from them the first element keeps
each attribute that it has, and gets each other that the second has, a link as a reference that is
still to be resolved. Id, name, parent, the link to the base and children of all elements stay as
they are, and so does every element that is not the first of a pair. To extend it once more succeeds
and changes nothing. -/
theorem extend_fills_exactly (hdoc : doc.ChildForest) (ht : t < doc.elements.size)
    (hts : ¬doc.InsideOf t s) (hst : ¬doc.InsideOf s t) (h : doc.extend t s = .ok doc') :
    (∀ d b, doc.Paired (t, s) (d, b) → ∀ slot,
      (doc'.element d).datum? slot =
        ((doc.element d).datum? slot).or ((doc.element b).datum? slot) ∧
      (doc'.element d).link? slot =
        ((doc.element d).link? slot).or (((doc.element b).link? slot).map Link.unresolved)) ∧
    (∀ i, (doc'.element i).standing = (doc.element i).standing) ∧
    (∀ i, (∀ b, ¬doc.Paired (t, s) (i, b)) → doc'.element i = doc.element i) ∧
    doc'.elements.size = doc.elements.size ∧
    doc'.extend t s = .ok doc' := by
  have hmatched := matched_of_extend h
  have hvalue := extend_of_matched hmatched
  rw [h] at hvalue
  cases hvalue
  have houtline := fillPairs_outline (doc.pairs doc.depthBound t s) doc
  have hmem {p : Nat × Nat} := mem_pairs_iff (p := p) hdoc hts hst
  refine ⟨fun d b hp slot => ?_, fillPairs_standing _ doc, fun i hi => ?_, houtline.size, ?_⟩
  · have hkind := kind_eq_of_extend h (hmem.mpr hp)
    rw [hp.element_target hdoc hts hst ht]
    exact ⟨Element.datum?_fillFrom hkind slot, Element.link?_fillFrom hkind slot⟩
  · refine element_fillPairs _ fun q hq heq => hi q.2 ?_
    rw [← heq]
    exact hmem.mp hq
  · have hbound : ((doc.pairs doc.depthBound t s).foldl fillPair doc).depthBound =
        doc.depthBound := congrArg (· + 1) houtline.size
    rw [extend_of_matched (houtline.matched hmatched), houtline.pairs, hbound]
    refine congrArg Except.ok (fillPairs_of_covers fun p hp => ?_)
    rw [(hmem.mp hp).element_target hdoc hts hst ht, (hmem.mp hp).element_source hdoc hts hst]
    exact Element.fillFrom_covers _ _

/-- The number without a length gets the length of the first of its namesakes, and the reference is
taken over without what it refers to. -/
theorem extend_fills_exactly_siblings : ∃ doc', siblings.extend 7 3 = .ok doc' ∧
    (doc'.element 4).datum? .length = some (.expression (.constant 4)) ∧
    (doc'.element 5).datum? .length = some (.expression (.constant 2)) ∧
    (doc'.element 6).link? .target = some { reference := .id 9 } ∧
    doc'.extend 7 3 = .ok doc' := by
  have hmatched : siblings.Matched 7 3 := Or.inr (by decide)
  have hextend := extend_of_matched hmatched
  obtain ⟨hfills, _, _, _, hagain⟩ := extend_fills_exactly siblings_forest (by decide)
    (not_insideOf_of_top (by decide) (by decide)) (not_insideOf_of_top (by decide) (by decide))
    hextend
  have hfirst : siblings.Paired (7, 3) (4, 0) := .single ⟨by decide, by decide, by decide⟩
  have hsecond : siblings.Paired (7, 3) (5, 0) := .single ⟨by decide, by decide, by decide⟩
  have hthird : siblings.Paired (7, 3) (6, 2) := .single ⟨by decide, by decide, by decide⟩
  exact ⟨_, hextend, (hfills 4 0 hfirst .length).1, (hfills 5 0 hsecond .length).1,
    (hfills 6 2 hthird .target).2, hagain⟩

end Document

end BinaryGrammar
