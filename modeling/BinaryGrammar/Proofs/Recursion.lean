import BinaryGrammar.Proofs.References

/-!
# The search for recursion is exact

The search for recursion marks structures as active while it is above them and as done when it has
left them, and reports the target of every edge that leads to an active structure. A structure that
is active leads to the one where the search is, so the edge closes a circle on which its target
lies. On the other hand a search that reports nothing has left every structure, and none of them
leads to itself.

The main statement is `load_circles`.
-/

set_option autoImplicit false

namespace BinaryGrammar.Document

namespace Search

variable {doc : Document} {edges : Nat → List Nat} {s s' s₁ : Search} {i t : Nat}

/-- There is an edge from one structure to another. -/
def Edge (edges : Nat → List Nat) (i t : Nat) : Prop := t ∈ edges i

/-- What has been reported are structures on circles. -/
def ReportsCircles (doc : Document) (edges : Nat → List Nat) (s : Search) : Prop :=
  ∃ es : List Nat, (∀ e ∈ es, Relation.TransGen (Edge edges) e e) ∧
    s.notes.toList = es.map fun e => .emptyRecursion (doc.label e)

/-- All structures that are active lead to one where the search may go. -/
def Above (edges : Nat → List Nat) (s : Search) (i : Nat) : Prop :=
  ∀ a : Nat, s.stages[a]? = some Stage.active → Relation.ReflTransGen (Edge edges) a i

/-- What leads to a structure leads to the targets of its edges. -/
theorem Above.step (h : Above edges s i) (ht : t ∈ edges i) : Above edges s t :=
  fun a ha => (h a ha).tail ht

/-- A later state of a search: what it has reported are structures on circles, and no others are
active. -/
structure Tracked (doc : Document) (edges : Nat → List Nat) (s s' : Search) : Prop where
  reports : s'.ReportsCircles doc edges
  active : ∀ {a : Nat}, s'.stages[a]? = some Stage.active → s.stages[a]? = some Stage.active

namespace Tracked

theorem refl (h : s.ReportsCircles doc edges) : Tracked doc edges s s := ⟨h, id⟩

theorem trans (h : Tracked doc edges s s₁) (h' : Tracked doc edges s₁ s') :
    Tracked doc edges s s' := ⟨h'.reports, fun ha => h.active (h'.active ha)⟩

theorem above (h : Tracked doc edges s s') (habove : Above edges s i) : Above edges s' i :=
  fun a ha => habove a (h.active ha)

/-- Steps one after another. -/
theorem foldl {f : Search → Nat → Search} {ts : List Nat} (hs : s.ReportsCircles doc edges)
    (hf : ∀ {s' : Search}, Tracked doc edges s s' → ∀ t ∈ ts, Tracked doc edges s' (f s' t)) :
    Tracked doc edges s (ts.foldl f s) :=
  List.foldlRecOn ts f (motive := fun s' => Tracked doc edges s s') (.refl hs)
    fun _ hs' t ht => hs'.trans (hf hs' t ht)

end Tracked

/-- An edge to an active structure closes a circle. -/
theorem follow_tracked {depth : Nat} (hs : s.ReportsCircles doc edges) (habove : Above edges s i)
    (ht : t ∈ edges i) (hvisit : Tracked doc edges s (visit doc edges depth s t)) :
    Tracked doc edges s (follow doc edges depth s t) := by
  unfold follow
  cases hstage : s.stages[t]? with
  | none => exact hvisit
  | some stage =>
      cases stage with
      | done => exact .refl hs
      | active =>
          have hcircle : Relation.TransGen (Edge edges) t t := .tail' (habove t hstage) ht
          obtain ⟨es, hes, hnotes⟩ := hs
          refine ⟨⟨es ++ [t], ?_, ?_⟩, id⟩
          · intro e he
            rcases List.mem_append.mp he with he | he
            · exact hes e he
            · rwa [List.mem_singleton.mp he]
          · rw [Array.toList_push, hnotes, List.map_append, List.map_singleton]

/-- **A visit reports structures on circles only.** -/
theorem visit_tracked : ∀ (depth : Nat) {s : Search} {i : Nat}, s.ReportsCircles doc edges →
    Above edges s i → Tracked doc edges s (visit doc edges depth s i)
  | 0, _, _, hs, _ => .refl hs
  | depth + 1, s, i, hs, habove => by
      by_cases hseen : s.stages.contains i = true
      · unfold visit
        rw [if_pos hseen]
        exact .refl hs
      · rw [visit_unseen hseen]
        -- the structure itself is active while its edges are followed, and leads to their targets
        have hactive : Above edges { s with stages := s.stages.insert i .active } i := by
          intro a ha
          dsimp only at ha
          rw [Std.HashMap.getElem?_insert] at ha
          split at ha
          · rename_i hia
            rw [← eq_of_beq hia]
          · exact habove a ha
        have hedges : Tracked doc edges { s with stages := s.stages.insert i .active }
            ((edges i).foldl (follow doc edges depth)
              { s with stages := s.stages.insert i .active }) :=
          Tracked.foldl hs fun hs' t ht => follow_tracked hs'.reports (hs'.above hactive) ht
            (visit_tracked depth hs'.reports ((hs'.above hactive).step ht))
        refine ⟨hedges.reports, fun {a} ha => ?_⟩
        dsimp only at ha
        rw [Std.HashMap.getElem?_insert] at ha
        split at ha
        · cases ha
        · rename_i hia
          have hbefore := hedges.active ha
          dsimp only at hbefore
          rwa [Std.HashMap.getElem?_insert, if_neg hia] at hbefore

end Search

variable {doc : Document} {S : Nat → Prop} {i t : Nat}

/-- A structure leads to another one, that to a further one, and so on until it is come to again. -/
def OnCircle (doc : Document) (e : Nat) : Prop := Relation.TransGen doc.Leads e e

/-- The search over a whole document reports structures on circles only. -/
theorem checkRecursion_circles (doc : Document) : ∃ es : List Nat, (∀ e ∈ es, doc.OnCircle e) ∧
    doc.checkRecursion (doc.preorder.map (·.1)) =
      es.map fun e => .emptyRecursion (doc.label e) := by
  let edges := fun i => (doc.leadingEdges (doc.preorder.map (·.1))).getD i []
  have hstart : Search.ReportsCircles doc edges {} := ⟨[], nofun, rfl⟩
  -- between the visits no structure is active
  have habove {s : Search} {i : Nat} (hs : Search.Tracked doc edges {} s) :
      Search.Above edges s i := by
    intro a ha
    have hnone := hs.active ha
    rw [Search.getElem?_empty] at hnone
    cases hnone
  have hsearch : Search.Tracked doc edges {}
      (((doc.preorder.map (·.1)).filter fun i => (doc.element i).kind = .struct).foldl
        (Search.visit doc edges (doc.elements.size + 1)) {}) :=
    Search.Tracked.foldl hstart fun hs _ _ => Search.visit_tracked _ hs.reports (habove hs)
  obtain ⟨es, hes, hnotes⟩ := hsearch.reports
  refine ⟨es, fun e he => ?_, hnotes⟩
  -- the other relation goes from targets to sources
  have hswap := Relation.transGen_swap.mpr (hes e he)
  exact Relation.TransGen.mono (fun t i ht => (mem_leadingEdges doc i t).mp ht) e e hswap

/-! ## Circles are reported -/

theorem OnCircle.not_acc {e : Nat} (h : doc.OnCircle e) : ¬Acc doc.Leads e := by
  intro hacc
  replace hacc : Acc (Relation.TransGen doc.Leads) e := hacc.transGen
  induction hacc with
  | intro e _ ih => exact ih e h h

/-- What lies on a circle leads to something, and so it is a structure of the grammar. -/
theorem OnCircle.leads {e : Nat} (h : doc.OnCircle e) :
    doc.Listed e ∧ (doc.element e).kind = .struct := by
  obtain ⟨_, _, hlisted, hkind, _⟩ := Relation.TransGen.tail'_iff.mp h
  exact ⟨hlisted, hkind⟩

/-- Where a structure leads is where links point, or where decoding starts. -/
theorem leadingRefs_pointsIn (hpoints : doc.PointsIn S) (hstart : ∀ t, doc.start = some t → S t) :
    ∀ (budget : Nat) {i : Nat}, t ∈ doc.leadingRefs budget i → S t
  | 0, _, ht => by cases ht
  | budget + 1, i, ht => by
      obtain ⟨c, _, ht⟩ := of_mem_leadingOfAll ht
      unfold leadingOf at ht
      cases hbody : (doc.element c).body with
      | struct b =>
          simp only [hbody] at ht
          exact leadingRefs_pointsIn hpoints hstart budget ht
      | structRef r =>
          simp only [hbody] at ht
          have hlink : r.target ∈ (doc.element c).links := by
            unfold Element.links
            rw [hbody]
            exact List.mem_cons_of_mem _ List.mem_cons_self
          split at ht
          · cases ht
          · exact hpoints c r.target hlink t (Option.mem_toList.mp ht)
      | grammarRef g =>
          simp only [hbody] at ht
          split at ht
          · cases ht
          · split at ht
            · exact hstart t (Option.mem_toList.mp ht)
            · cases ht
      | _ =>
          simp only [hbody] at ht
          cases ht

/-- Structures lead to elements of the document, whatever is reported about it. -/
theorem load_leads_lt (r : Record.Document) (h : (load r).value.Leads t i) :
    t < (load r).value.elements.size := by
  have hlinks := update_pointsIn fun i => (ofRecord_fresh r i).2
  have hlisted : (load r).value.Listed t := by
    rw [load_value] at h ⊢
    rw [Listed.congr (update_shape _)]
    exact leadingRefs_pointsIn hlinks.1 hlinks.2 nestingLimit h.2.2
  exact hlisted.lt_size (load_numbered r)

/-- What is reported about recursion is what the search finds in the document as it is loaded. -/
theorem load_searching (r : Record.Document) : (load r).notes.filter Phase.searching.reports =
    (load r).value.checkRecursion ((load r).value.preorder.map (·.1)) := by
  rw [filter_load Phase.sole_searching]
  unfold reported
  dsimp only
  rw [load_value, preorder_congr (update_shape _), preorder_congr (register_shape _)]

/-- **Recursion is reported exactly if structures lead to each other in a circle**, and all that is
reported are structures on circles, whatever else is wrong with a record. -/
theorem load_circles (r : Record.Document) :
    let doc := (load r).value
    ((∃ l, .emptyRecursion l ∈ (load r).notes) ↔ ∃ e, doc.OnCircle e) ∧
    ∃ es : List Nat, (∀ e ∈ es, doc.OnCircle e) ∧
      (load r).notes.filter Phase.searching.reports =
        es.map fun e => .emptyRecursion (doc.label e) := by
  dsimp only
  have hsearching := load_searching r
  obtain ⟨es, hes, hnotes⟩ := checkRecursion_circles (load r).value
  rw [hnotes] at hsearching
  refine ⟨⟨?_, ?_⟩, es, hes, hsearching⟩
  · rintro ⟨l, hl⟩
    have hmem : .emptyRecursion l ∈ (load r).notes.filter Phase.searching.reports :=
      List.mem_filter.mpr ⟨hl, rfl⟩
    rw [hsearching] at hmem
    obtain ⟨e, he, _⟩ := List.mem_map.mp hmem
    exact ⟨e, hes e he⟩
  · rintro ⟨e, he⟩
    -- a search that reports nothing leaves no structure from which a way goes on forever
    by_contra hsilent
    have hnone : es = [] := by
      refine List.eq_nil_iff_forall_not_mem.mpr fun x hx =>
        hsilent ⟨(load r).value.label x, ?_⟩
      have hmem : .emptyRecursion ((load r).value.label x) ∈
          (load r).notes.filter Phase.searching.reports := by
        rw [hsearching]
        exact List.mem_map_of_mem hx
      exact (List.mem_filter.mp hmem).1
    rw [hnone] at hnotes
    obtain ⟨hlisted, hkind⟩ := he.leads
    exact he.not_acc (checkRecursion_leads (load_numbered r) (load_leads_lt r) hnotes hlisted hkind)

/-! ## A structure that begins with itself -/

/-- The record of a structure with a reference to itself as its only element. -/
def selfish : Record.Document where
  grammar := { start := "id:1", elements := [.struct { id := 1, name := "s" } {}
    [.structRef { id := 2, name := "r" } { target := "id:1" }]] }

/-- Its document before it is linked. -/
def selfishUnlinked : Document :=
  .ofParts "" { start := some { reference := .id 1 }, elements := [1] }
    #[{ ident := { id := 2, name := "r" }
        body := .structRef { target := some { reference := .id 1 } } },
      { ident := { id := 1, name := "s" }, body := .struct { elements := [0] } }] #[]

theorem ofRecord_selfish : ofRecord selfish = { value := selfishUnlinked } := by
  have hlink {α : Type} : (Link.parse? "id:1" : Option (Link α)) = some { reference := .id 1 } :=
    rfl
  unfold ofRecord selfish
  simp only [Build.addElements, Build.addElement, Build.struct, Build.structRef, hlink]
  rfl

set_option maxRecDepth 2048 in
/-- The structure is reported, so it is on a circle. -/
theorem load_circles_selfish : .emptyRecursion ⟨.struct, 1, "s"⟩ ∈ (load selfish).notes ∧
    ∃ e, (load selfish).value.OnCircle e := by
  have hnotes : (load selfish).notes = [.emptyRecursion ⟨.struct, 1, "s"⟩] := by
    obtain ⟨names, hnames⟩ := register_names selfishUnlinked
    unfold load update
    rw [ofRecord_selfish, Noted.notes_bind, hnames]
    clear hnames
    cbv
  have hreported : .emptyRecursion ⟨.struct, 1, "s"⟩ ∈ (load selfish).notes := by
    rw [hnotes]
    exact List.mem_cons_self
  exact ⟨hreported, (load_circles selfish).1.mp ⟨_, hreported⟩⟩

end BinaryGrammar.Document
