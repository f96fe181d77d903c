import BinaryGrammar.Proofs.Phases

/-!
# Walks without a limit

Attributes that an element does not set are looked up along a walk over bases and parents. Bases and
parents together can go in circles, so that a walk is given a limit. The limit never changes an
answer in a document of at most that many elements: an element that a walk comes to at all it comes
to within as many steps as there are elements, because a walk that has come twice to an element can
leave out what is between.

The main statement is `attributes_follow_walks`: every attribute has the value that a walk without a
limit finds.
-/

set_option autoImplicit false

namespace BinaryGrammar

namespace Document

variable {doc : Document} {viaParent : Bool} {α β : Type} {own : Element → Option α} {i j : Nat}

/-! ## Steps of a walk -/

/-- The element that a walk comes to after so many steps, unless it ends before. -/
def reached (doc : Document) (viaParent : Bool) : Nat → Nat → Option Nat
  | 0, i => some i
  | n + 1, i => (doc.next viaParent i).bind (doc.reached viaParent n)

theorem reached_succ (doc : Document) (viaParent : Bool) (n i : Nat) :
    doc.reached viaParent (n + 1) i = (doc.next viaParent i).bind (doc.reached viaParent n) := rfl

theorem reached_add (doc : Document) (viaParent : Bool) (m n : Nat) : ∀ (i : Nat),
    doc.reached viaParent (m + n) i =
      (doc.reached viaParent m i).bind (doc.reached viaParent n) := by
  induction m with
  | zero =>
      intro i
      rw [Nat.zero_add]
      rfl
  | succ m ih =>
      intro i
      rw [Nat.succ_add, reached_succ, reached_succ]
      cases doc.next viaParent i with
      | none => rfl
      | some j => exact ih j

/-- What is not an element of the document leads nowhere. -/
theorem lt_size_of_next (h : doc.next viaParent i = some j) : i < doc.elements.size := by
  by_contra hi
  unfold next at h
  rw [BaseOrder.element_of_size_le (Nat.le_of_not_lt hi)] at h
  cases viaParent <;> cases h

/-- A walk comes through elements of the document before it comes to one. -/
theorem exists_reached_of_le {m n : Nat} (h : doc.reached viaParent n i = some j)
    (hj : j < doc.elements.size) (hmn : m ≤ n) :
    ∃ k < doc.elements.size, doc.reached viaParent m i = some k := by
  rw [← Nat.add_sub_cancel' hmn, reached_add, Option.bind_eq_some_iff] at h
  obtain ⟨k, hk, hrest⟩ := h
  refine ⟨k, ?_, hk⟩
  cases hdiff : n - m with
  | zero =>
      rw [hdiff] at hrest
      cases hrest
      exact hj
  | succ d =>
      rw [hdiff] at hrest
      obtain ⟨l, hl, _⟩ := Option.bind_eq_some_iff.mp hrest
      exact lt_size_of_next hl

/-- What a walk does between two times that it comes to the same element can be left out. -/
theorem reached_skip {p q n k : Nat} (hp : doc.reached viaParent p i = some k)
    (hq : doc.reached viaParent q i = some k) (hqn : q ≤ n)
    (h : doc.reached viaParent n i = some j) : doc.reached viaParent (p + (n - q)) i = some j := by
  have hsplit : n = q + (n - q) := (Nat.add_sub_cancel' hqn).symm
  rw [hsplit, reached_add, hq] at h
  rw [reached_add, hp]
  exact h

/-- A walk of at least as many steps as there are elements comes to some element twice. -/
theorem exists_reached_twice {n : Nat} (h : doc.reached viaParent n i = some j)
    (hj : j < doc.elements.size) (hn : doc.elements.size ≤ n) :
    ∃ p q k, p < q ∧ q ≤ n ∧ doc.reached viaParent p i = some k ∧
      doc.reached viaParent q i = some k := by
  have hcard : (Finset.range doc.elements.size).card < (Finset.range (n + 1)).card := by
    rw [Finset.card_range, Finset.card_range]
    omega
  have hmaps : Set.MapsTo (fun m => (doc.reached viaParent m i).getD 0)
      (Finset.range (n + 1)) (Finset.range doc.elements.size) := by
    intro m hm
    obtain ⟨k, hk, hmk⟩ := exists_reached_of_le h hj (Nat.le_of_lt_succ (Finset.mem_range.mp hm))
    dsimp only
    rw [hmk]
    exact Finset.mem_coe.mpr (Finset.mem_range.mpr hk)
  obtain ⟨p, hp, q, hq, hpq, hsame⟩ := Finset.exists_ne_map_eq_of_card_lt_of_maps_to hcard hmaps
  have hp := Nat.le_of_lt_succ (Finset.mem_range.mp hp)
  have hq := Nat.le_of_lt_succ (Finset.mem_range.mp hq)
  obtain ⟨k, _, hk⟩ := exists_reached_of_le h hj hp
  obtain ⟨l, _, hl⟩ := exists_reached_of_le h hj hq
  rw [hk, hl] at hsame
  change k = l at hsame
  subst hsame
  rcases Nat.lt_or_gt_of_ne hpq with hlt | hlt
  · exact ⟨p, q, k, hlt, hq, hk, hl⟩
  · exact ⟨q, p, k, hlt, hp, hl, hk⟩

/-- **A walk comes to an element within as many steps as there are elements, or never.** -/
theorem exists_reached_lt_size (hj : j < doc.elements.size) (n : Nat) :
    doc.reached viaParent n i = some j →
      ∃ m < doc.elements.size, doc.reached viaParent m i = some j := by
  induction n using Nat.strong_induction_on with
  | _ n ih =>
      intro h
      by_cases hn : n < doc.elements.size
      · exact ⟨n, hn, h⟩
      · obtain ⟨p, q, k, hpq, hqn, hp, hq⟩ := exists_reached_twice h hj (Nat.le_of_not_lt hn)
        exact ih (p + (n - q)) (by omega) (reached_skip hp hq hqn h)

/-! ## What a walk finds -/

/-- What a walk without a limit finds: the own value of the first element that has one, or nothing
when no element on it has one. -/
def Finds (doc : Document) (viaParent : Bool) (own : Element → Option α) (i : Nat) :
    Option α → Prop
  | some v => ∃ n j, doc.reached viaParent n i = some j ∧ own (doc.element j) = some v ∧
      ∀ m < n, ∀ k, doc.reached viaParent m i = some k → own (doc.element k) = none
  | none => ∀ n j, doc.reached viaParent n i = some j → own (doc.element j) = none

namespace Finds

variable {o o' : Option α}

/-- A walk finds one thing. -/
theorem unique (h : doc.Finds viaParent own i o) (h' : doc.Finds viaParent own i o') : o = o' := by
  cases o with
  | none =>
      cases o' with
      | none => rfl
      | some v =>
          obtain ⟨n, j, hj, hv, _⟩ := h'
          rw [h n j hj] at hv
          cases hv
  | some v =>
      obtain ⟨n, j, hj, hv, hfirst⟩ := h
      cases o' with
      | none =>
          rw [h' n j hj] at hv
          cases hv
      | some w =>
          obtain ⟨m, k, hk, hw, hfirst'⟩ := h'
          rcases Nat.lt_trichotomy m n with hmn | rfl | hmn
          · rw [hfirst m hmn k hk] at hw
            cases hw
          · cases hj.symm.trans hk
            exact hv.symm.trans hw
          · rw [hfirst' n hmn j hj] at hv
            cases hv

/-- An element without a value of its own finds what the next one on the walk finds. -/
theorem of_next (hown : own (doc.element i) = none) (hnext : doc.next viaParent i = some j)
    (h : doc.Finds viaParent own j o) : doc.Finds viaParent own i o := by
  have hreached (n : Nat) : doc.reached viaParent (n + 1) i = doc.reached viaParent n j := by
    rw [reached_succ, hnext]
    rfl
  cases o with
  | none =>
      intro n k hk
      cases n with
      | zero =>
          cases hk
          exact hown
      | succ n =>
          rw [hreached] at hk
          exact h n k hk
  | some v =>
      obtain ⟨n, k, hk, hv, hfirst⟩ := h
      refine ⟨n + 1, k, (hreached n).trans hk, hv, ?_⟩
      intro m hm l hl
      cases m with
      | zero =>
          cases hl
          exact hown
      | succ m =>
          rw [hreached] at hl
          exact hfirst m (Nat.lt_of_succ_lt_succ hm) l hl

end Finds

/-- A walk with a limit that has found something has found the same as one without. -/
theorem finds_of_walk {v : α} : ∀ {limit i : Nat}, doc.walk viaParent own limit i = some v →
    doc.Finds viaParent own i (some v)
  | limit + 1, i, h => by
      unfold walk at h
      split at h
      · rename_i w hw
        cases h
        exact ⟨0, i, rfl, hw, nofun⟩
      · rename_i hown
        split at h
        · rename_i j hnext
          exact .of_next hown hnext (finds_of_walk h)
        · cases h

/-- One that has found nothing has met nothing up to the limit. -/
theorem own_of_walk : ∀ {limit i : Nat}, doc.walk viaParent own limit i = none →
    ∀ n < limit, ∀ j, doc.reached viaParent n i = some j → own (doc.element j) = none
  | limit + 1, i, h, n, hn, j, hj => by
      unfold walk at h
      split at h
      · cases h
      · rename_i hown
        cases n with
        | zero =>
            cases hj
            exact hown
        | succ n =>
            obtain ⟨k, hnext, hk⟩ := Option.bind_eq_some_iff.mp hj
            simp only [hnext] at h
            exact own_of_walk h n (Nat.lt_of_succ_lt_succ hn) j hk

/-- **The limit of a walk changes no answer** when it is not below the number of elements. -/
theorem finds_walk {limit : Nat} (hlimit : doc.elements.size ≤ limit) (hown : own default = none)
    (i : Nat) : doc.Finds viaParent own i (doc.walk viaParent own limit i) := by
  cases hwalk : doc.walk viaParent own limit i with
  | some v => exact finds_of_walk hwalk
  | none =>
      -- an element further on than the limit has been met before it
      intro n j hj
      by_cases hsize : j < doc.elements.size
      · obtain ⟨m, hm, hmj⟩ := exists_reached_lt_size hsize n hj
        exact own_of_walk hwalk m (Nat.lt_of_lt_of_le hm hlimit) j hmj
      · rw [BaseOrder.element_of_size_le (Nat.le_of_not_lt hsize)]
        exact hown

/-! ## Attributes -/

/-- An attribute of an element is what a walk without a limit finds, or else its default; and an
element that has a base and no value of its own has the attribute of its base. -/
structure FollowsWalk (doc : Document) (viaParent : Bool) (own : Element → Option α)
    (orDefault : Option α → β) (value : Nat → β) (i : Nat) : Prop where
  found : ∃ o, doc.Finds viaParent own i o ∧ value i = orDefault o
  base : ∀ b, (doc.element i).base = some b → own (doc.element i) = none →
    value i = value b

theorem walk_follows (hsize : doc.elements.size ≤ walkLimit) (hown : own default = none)
    (orDefault : Option α → β) (i : Nat) :
    doc.FollowsWalk viaParent own orDefault
      (fun i => orDefault (doc.walk viaParent own walkLimit i)) i where
  found := ⟨_, finds_walk hsize hown i, rfl⟩
  base := by
    intro b hbase hnone
    have hnext : doc.next viaParent i = some b := by
      unfold next
      simp only [hbase]
    have hfinds := Finds.of_next hnone hnext (finds_walk hsize hown b)
    exact congrArg orDefault ((finds_walk hsize hown i).unique hfinds)

/-- The element whose length is the length of another: the target of a reference to a structure, the
structure where decoding starts for a reference to a grammar, and else the element itself. -/
def measured (doc : Document) (i : Nat) : Option Nat :=
  match (doc.element i).body with
  | .structRef r => r.target.bind (·.target)
  | .grammarRef _ => doc.start
  | _ => some i

theorem length_eq_measured (doc : Document) (i : Nat) :
    doc.length i = (doc.measured i).bind (doc.derived Element.length) := by
  unfold length measured
  cases (doc.element i).body <;> rfl

/-- **Attributes follow walks.** In a document of at most 256 elements, whatever circles its bases
and parents go in, every attribute of an element is the own value of the first element that has one
on the walk over bases and, for attributes of presentation, parents; and it is the default when no
element on the walk has one. -/
theorem attributes_follow_walks (doc : Document) (hsize : doc.elements.size ≤ 256) (i : Nat) :
    doc.FollowsWalk true Element.signed (·.getD true) doc.signed i ∧
    doc.FollowsWalk true Element.endian (·.getD .little) doc.endian i ∧
    doc.FollowsWalk true Element.display (·.getD .dec) doc.display i ∧
    doc.FollowsWalk true Element.encoding (·.getD "UTF-8") doc.encoding i ∧
    doc.FollowsWalk true Element.lengthUnit (·.getD .byte) doc.lengthUnit i ∧
    doc.FollowsWalk true Element.order (·.getD .fixed) doc.order i ∧
    doc.FollowsWalk false Element.mustMatch (·.getD true) doc.mustMatch i ∧
    doc.FollowsWalk false Element.numberType (·.getD .integer) doc.numberType i ∧
    doc.FollowsWalk false Element.stringType (·.getD .zeroTerminated) doc.stringType i ∧
    doc.FollowsWalk false Element.lengthOffset id doc.lengthOffset i ∧
    doc.FollowsWalk false (·.repeats.min) (·.getD (.constant 1)) doc.repeatMin i ∧
    doc.FollowsWalk false (·.repeats.max) (·.getD (.constant 1)) doc.repeatMax i ∧
    (doc.measured i = none → doc.length i = none) ∧
    (∀ e, doc.measured i = some e → doc.length i = doc.derived Element.length e ∧
      doc.FollowsWalk false Element.length id (doc.derived Element.length) e) := by
  refine ⟨walk_follows hsize rfl _ i, walk_follows hsize rfl _ i, walk_follows hsize rfl _ i,
    walk_follows hsize rfl _ i, walk_follows hsize rfl _ i, walk_follows hsize rfl _ i,
    walk_follows hsize rfl _ i, walk_follows hsize rfl _ i, walk_follows hsize rfl _ i,
    walk_follows hsize rfl _ i, walk_follows hsize rfl _ i, walk_follows hsize rfl _ i, ?_, ?_⟩
  · intro hnone
    rw [length_eq_measured, hnone]
    rfl
  · intro e he
    rw [length_eq_measured, he]
    exact ⟨rfl, walk_follows hsize rfl id e⟩

end Document

/-! ## A walk in a circle

The structure `p` derives from `x`, which derives from the structure `y` inside `p`. -/

/-- The grammar with these structures. -/
def Record.Document.circling : Record.Document where
  grammar :=
    { start := "id:1"
      elements := [
        .struct { id := 1, name := "p", derives := "id:3" } {}
          [.struct { id := 2, name := "y" } {} []],
        .struct { id := 3, name := "x", derives := "id:2" } {} []] }

namespace Document

/-- Its document before it is linked. -/
def circling : Document :=
  .ofParts "" { start := some { reference := .id 1 }, elements := [1, 2] }
    #[{ ident := { id := 2, name := "y" }, body := .struct {} },
      { ident := { id := 1, name := "p" }, derives := some { reference := .id 3 }
        body := .struct { elements := [0] } },
      { ident := { id := 3, name := "x" }, derives := some { reference := .id 2 }
        body := .struct {} }] #[]

theorem ofRecord_circling : ofRecord .circling = { value := circling } := by
  have hlink {α : Type} : (Link.parse? "id:1" : Option (Link α)) = some { reference := .id 1 } ∧
      (Link.parse? "id:2" : Option (Link α)) = some { reference := .id 2 } ∧
      (Link.parse? "id:3" : Option (Link α)) = some { reference := .id 3 } := ⟨rfl, rfl, rfl⟩
  unfold ofRecord Record.Document.circling
  simp only [Build.addElements, Build.addElement, Build.struct, hlink]
  rfl

/-- **Bases and parents can go in a circle in a document without problems**; its walks have values
all the same. -/
theorem circling_follows_walks :
    (load .circling).notes = [] ∧
    (load .circling).value.next true 1 = some 2 ∧ (load .circling).value.next true 2 = some 0 ∧
    (load .circling).value.next true 0 = some 1 ∧
    (load .circling).value.FollowsWalk true Element.signed (·.getD true)
      (load .circling).value.signed 1 := by
  have hsize : (load .circling).value.elements.size ≤ 256 := by
    rw [load_value, ofRecord_circling, (update_shape circling).size]
    decide
  have hfollows := (attributes_follow_walks _ hsize 1).1
  obtain ⟨names, hnames⟩ := register_names circling
  refine ⟨?_, ?_, ?_, ?_, hfollows⟩
  all_goals
    unfold load update
    rw [ofRecord_circling]
    first | rw [Noted.notes_bind, hnames] | rw [Noted.value_bind, hnames]
    clear hfollows hsize hnames
    cbv

end Document

end BinaryGrammar
