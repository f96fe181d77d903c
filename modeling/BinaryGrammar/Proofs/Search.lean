import BinaryGrammar.Proofs.Linking

/-!
# Structures that lead back to themselves

The search for recursion goes from structure to structure along edges and reports every edge that
leads back to a structure whose visit has not ended. So when it reports nothing, there is no endless
way along the edges: every structure that has been visited is accessible. The search is given as
many levels as there are elements, which is enough, because a visit begins with a structure that has
not been seen and marks it before it goes on.

The main statement is `load_leads`: in a document about which nothing is reported, no way along
`Leads` goes on forever.
-/

set_option autoImplicit false

namespace BinaryGrammar.Document

namespace Search

variable {doc : Document} {edges : Nat → List Nat} {s s' s₁ : Search}

/-- A later state of a search: structures have been visited to their end, and problems have been
added. -/
structure Extends (s s' : Search) : Prop where
  stage : ∀ j : Nat, s'.stages[j]? = s.stages[j]? ∨
    s.stages[j]? = none ∧ s'.stages[j]? = some Stage.done
  quiet : s'.notes = #[] → s.notes = #[]

namespace Extends

theorem refl (s : Search) : Extends s s := ⟨fun _ => Or.inl rfl, id⟩

theorem trans (h : Extends s s₁) (h' : Extends s₁ s') : Extends s s' where
  stage := fun j => by
    rcases h'.stage j with hsame | ⟨hnone, hdone⟩
    · rw [hsame]
      exact h.stage j
    · rcases h.stage j with hsame | ⟨_, hdone'⟩
      · exact Or.inr ⟨hsame.symm.trans hnone, hdone⟩
      · cases hnone.symm.trans hdone'
  quiet := fun hquiet => h.quiet (h'.quiet hquiet)

/-- What has a stage keeps it. -/
theorem keeps (h : Extends s s') {j : Nat} {stage : Stage} (hj : s.stages[j]? = some stage) :
    s'.stages[j]? = some stage := by
  rcases h.stage j with hsame | ⟨hnone, _⟩
  · rw [hsame]
    exact hj
  · cases hnone.symm.trans hj

/-- What has not been seen was not seen before. -/
theorem unseen (h : Extends s s') {j : Nat} (hj : s'.stages[j]? = none) : s.stages[j]? = none := by
  rcases h.stage j with hsame | ⟨hnone, _⟩
  · rw [← hsame]
    exact hj
  · exact hnone

end Extends

/-- No way along the edges from a structure that has been visited to its end goes on forever. -/
def Settled (edges : Nat → List Nat) (s : Search) : Prop :=
  ∀ j : Nat, s.stages[j]? = some Stage.done → Acc (fun t i => t ∈ edges i) j

/-- All structures that have not been seen are in a list, which tells how many there can be. -/
def UnseenIn (n : Nat) (s : Search) (list : List Nat) : Prop :=
  ∀ j < n, s.stages[j]? = none → j ∈ list

/-- What following an edge, or a visit, does if nothing is reported: its target has been visited to
its end. -/
structure Follows (edges : Nat → List Nat) (s : Search) (t : Nat) (s' : Search) : Prop where
  later : Extends s s'
  settled : s'.notes = #[] → s.Settled edges → s'.Settled edges
  target : s'.notes = #[] → s'.stages[t]? = some Stage.done

/-- What later states keep. -/
def Lasting (P : Search → Prop) : Prop := ∀ {s s' : Search}, Extends s s' → P s → P s'

/-- Following edges one after another does for each target what following one does. -/
theorem foldl_follows {n : Nat} {P : Search → Prop} (hP : Lasting P) {f : Search → Nat → Search}
    (hf : ∀ {s : Search} {t : Nat}, P s → t < n → Follows edges s t (f s t)) :
    ∀ (ts : List Nat) {s : Search}, (∀ t ∈ ts, t < n) → P s →
    Extends s (ts.foldl f s) ∧ ((ts.foldl f s).notes = #[] → s.Settled edges →
      (ts.foldl f s).Settled edges ∧ ∀ t ∈ ts, (ts.foldl f s).stages[t]? = some Stage.done)
  | [], s, _, _ => ⟨.refl s, fun _ hs => ⟨hs, fun t ht => by cases ht⟩⟩
  | t :: ts, s, hts, hs => by
      have hfirst := hf hs (hts t List.mem_cons_self)
      obtain ⟨hrest, hall⟩ := foldl_follows hP hf ts
        (fun u hu => hts u (List.mem_cons_of_mem _ hu)) (hP hfirst.later hs)
      refine ⟨hfirst.later.trans hrest, fun hquiet hsettled => ?_⟩
      have hquiet₁ := hrest.quiet hquiet
      obtain ⟨hsettled', hdone⟩ := hall hquiet (hfirst.settled hquiet₁ hsettled)
      refine ⟨hsettled', fun u hu => ?_⟩
      rcases List.mem_cons.mp hu with rfl | hu
      · exact hrest.keeps (hfirst.target hquiet₁)
      · exact hdone u hu

theorem UnseenIn.lasting (n : Nat) (list : List Nat) : Lasting (UnseenIn n · list) :=
  fun h hs j hj hnone => hs j hj (h.unseen hnone)

/-- Between the visits of a search no structure is being visited. -/
def Idle (s : Search) : Prop := ∀ j : Nat, s.stages[j]? ≠ some Stage.active

theorem Idle.lasting : Lasting Idle := by
  intro s s' h hs j hj
  rcases h.stage j with hsame | ⟨_, hdone⟩
  · exact hs j (hsame.symm.trans hj)
  · cases hdone.symm.trans hj

/-- Where the search stands between two visits from the top: it is idle, and no more than the
structures of the document have not been seen. -/
def Ready (n : Nat) (s : Search) : Prop := s.Idle ∧ s.UnseenIn n (List.range n)

theorem Ready.lasting (n : Nat) : Lasting (Ready n) :=
  fun h hs => ⟨Idle.lasting h hs.1, UnseenIn.lasting n _ h hs.2⟩

theorem getElem?_empty (j : Nat) : ({} : Search).stages[j]? = none := Std.HashMap.getElem?_empty

theorem ready_empty (n : Nat) : Ready n {} :=
  ⟨fun j hj => (by cases (getElem?_empty j).symm.trans hj), fun _ hj _ => List.mem_range.mpr hj⟩

/-- Marking a structure takes it from those that have not been seen. -/
theorem UnseenIn.insert {n i : Nat} {list : List Nat} {stage : Stage} (h : s.UnseenIn n list) :
    UnseenIn n { s with stages := s.stages.insert i stage } (list.erase i) := by
  intro j hj hnone
  dsimp only at hnone
  rw [Std.HashMap.getElem?_insert] at hnone
  split at hnone
  · cases hnone
  · rename_i hne
    have hji : j ≠ i := fun heq => hne (by rw [heq]; exact beq_self_eq_true i)
    exact (List.mem_erase_of_ne hji).mpr (h j hj hnone)

variable (doc) in
/-- What a visit does with one edge. -/
def follow (edges : Nat → List Nat) (depth : Nat) (s : Search) (t : Nat) : Search :=
  match s.stages[t]? with
  | some .active => { s with notes := s.notes.push (.emptyRecursion (doc.label t)) }
  | some .done => s
  | none => visit doc edges depth s t

theorem visit_unseen {depth i : Nat} (h : ¬s.stages.contains i = true) :
    visit doc edges (depth + 1) s i =
      let s₁ := (edges i).foldl (follow doc edges depth)
        { s with stages := s.stages.insert i .active }
      { s₁ with stages := s₁.stages.insert i .done } := by
  unfold visit
  rw [if_neg h]
  rfl

/-- An edge leads to a structure that is active, which is reported, or done, or is visited now. -/
theorem follow_follows {depth t : Nat}
    (hvisit : s.stages[t]? = none → Follows edges s t (visit doc edges depth s t)) :
    Follows edges s t (follow doc edges depth s t) := by
  unfold follow
  cases hstage : s.stages[t]? with
  | none => exact hvisit hstage
  | some stage =>
      cases stage with
      | done => exact ⟨.refl s, fun _ hsettled => hsettled, fun _ => hstage⟩
      | active =>
          have hloud : s.notes.push (.emptyRecursion (doc.label t)) ≠ #[] := Array.push_ne_empty
          exact ⟨⟨fun _ => Or.inl rfl, fun h => absurd h hloud⟩, fun h => absurd h hloud,
            fun h => absurd h hloud⟩

/-- A visit ends when all edges have been followed: the structure is accessible because all targets
of its edges are. -/
theorem Follows.close {i : Nat} (hnone : s.stages[i]? = none)
    (hext : Extends { s with stages := s.stages.insert i .active } s₁)
    (hall : s₁.notes = #[] → Settled edges { s with stages := s.stages.insert i .active } →
      s₁.Settled edges ∧ ∀ t ∈ edges i, s₁.stages[t]? = some Stage.done) :
    Follows edges s i { s₁ with stages := s₁.stages.insert i .done } := by
  have hstages (j : Nat) : (s₁.stages.insert i Stage.done)[j]? =
      if i = j then some Stage.done else s₁.stages[j]? := by
    rw [Std.HashMap.getElem?_insert]
    simp only [beq_iff_eq]
  refine ⟨⟨fun j => ?_, hext.quiet⟩, fun hquiet hsettled j hj => ?_, fun _ => ?_⟩
  · dsimp only
    rw [hstages]
    by_cases hij : i = j
    · subst hij
      exact Or.inr ⟨hnone, if_pos rfl⟩
    · rw [if_neg hij]
      have hstage := hext.stage j
      dsimp only at hstage
      rwa [Std.HashMap.getElem?_insert, if_neg (by simpa using hij)] at hstage
  · dsimp only at hj
    rw [hstages] at hj
    have hbefore : Settled edges { s with stages := s.stages.insert i .active } := by
      intro k hk
      dsimp only at hk
      rw [Std.HashMap.getElem?_insert] at hk
      split at hk
      · cases hk
      · exact hsettled k hk
    obtain ⟨hsettled₁, hdone⟩ := hall hquiet hbefore
    by_cases hij : i = j
    · subst hij
      exact Acc.intro i fun t ht => hsettled₁ t (hdone t ht)
    · rw [if_neg hij] at hj
      exact hsettled₁ j hj
  · dsimp only
    rw [hstages, if_pos rfl]

/-- **A visit that reports nothing ends, and leaves only structures from which all ways end.** -/
theorem visit_follows (doc : Document) {n : Nat} (hedges : ∀ i, ∀ t ∈ edges i, t < n)
    (depth : Nat) :
    ∀ {list : List Nat} {s : Search} {i : Nat}, list.length < depth → s.UnseenIn n list → i < n →
    s.stages[i]? ≠ some Stage.active → Follows edges s i (visit doc edges depth s i) := by
  induction depth with
  | zero =>
      intro list s i hdepth
      exact absurd hdepth (Nat.not_lt_zero _)
  | succ depth ih =>
      intro list s i hdepth hs hi hactive
      by_cases hseen : s.stages.contains i = true
      · -- it has been visited before
        unfold visit
        rw [if_pos hseen]
        refine ⟨.refl s, fun _ hsettled => hsettled, fun _ => ?_⟩
        rw [Std.HashMap.contains_eq_isSome_getElem?] at hseen
        obtain ⟨stage, hstage⟩ := Option.isSome_iff_exists.mp hseen
        cases stage with
        | active => exact absurd hstage hactive
        | done => exact hstage
      · rw [visit_unseen hseen]
        have hnone : s.stages[i]? = none := by
          rw [Std.HashMap.contains_eq_isSome_getElem?, Bool.not_eq_true,
            Option.isSome_eq_false_iff, Option.isNone_iff_eq_none] at hseen
          exact hseen
        -- the structure leaves the list of those that have not been seen
        have hlength : (list.erase i).length < depth := by
          have hmem := hs i hi hnone
          have hpos := List.length_pos_of_mem hmem
          rw [List.length_erase_of_mem hmem]
          omega
        have hstep {s : Search} {t : Nat} (hs : s.UnseenIn n (list.erase i)) (ht : t < n) :
            Follows edges s t (follow doc edges depth s t) := by
          refine follow_follows fun hstage => ih hlength hs ht ?_
          rw [hstage]
          exact nofun
        obtain ⟨hext, hall⟩ :=
          foldl_follows (UnseenIn.lasting n (list.erase i)) hstep (edges i) (hedges i) hs.insert
        exact Follows.close hnone hext hall

end Search

/-! ## Edges -/

variable {doc : Document} {S : Nat → Prop}

/-- A structure leads to another that it can enter before it consumes input, as far as is looked. -/
def Leads (doc : Document) (t i : Nat) : Prop :=
  doc.Listed i ∧ (doc.element i).kind = .struct ∧ t ∈ doc.leadingRefs nestingLimit i

theorem getD_leadingEdges (doc : Document) (order : List Nat) (i : Nat) :
    (doc.leadingEdges order).getD i [] =
      if i ∈ order ∧ (doc.element i).kind = .struct then doc.leadingRefs nestingLimit i
      else [] := by
  have hfrom : ∀ (order : List Nat) (edges : Std.HashMap Nat (List Nat)),
      (order.foldl (fun edges i => if (doc.element i).kind = .struct then
        edges.insert i (doc.leadingRefs nestingLimit i) else edges) edges).getD i [] =
      if i ∈ order ∧ (doc.element i).kind = .struct then doc.leadingRefs nestingLimit i
      else edges.getD i [] := by
    intro order
    induction order with
    | nil =>
        intro edges
        rw [if_neg (fun h => by cases h.1)]
        rfl
    | cons j order ih =>
        intro edges
        rw [List.foldl_cons, ih]
        by_cases hi : i ∈ order ∧ (doc.element i).kind = .struct
        · rw [if_pos hi, if_pos ⟨List.mem_cons_of_mem _ hi.1, hi.2⟩]
        · rw [if_neg hi]
          by_cases hji : j = i
          · subst hji
            by_cases hkind : (doc.element j).kind = .struct
            · rw [if_pos hkind, if_pos ⟨List.mem_cons_self, hkind⟩, Std.HashMap.getD_insert_self]
            · rw [if_neg hkind, if_neg (fun h => hkind h.2)]
          · have hmem : ¬(i ∈ j :: order ∧ (doc.element i).kind = .struct) := by
              rw [List.mem_cons]
              rintro ⟨rfl | hmem, hkind⟩
              · exact hji rfl
              · exact hi ⟨hmem, hkind⟩
            rw [if_neg hmem]
            split
            · rw [Std.HashMap.getD_insert, if_neg (by simpa using hji)]
            · rfl
  exact (hfrom order {}).trans (by rw [Std.HashMap.getD_empty])

/-- The structures that one child leads to, or those that one inside it leads to. -/
theorem leadingOf_sound (hdoc : doc.Sound S) {inside : Nat → List Nat} {c t : Nat} (hc : S c)
    (hinside : t ∈ inside c → S t ∧ (doc.element t).kind = .struct)
    (ht : t ∈ doc.leadingOf inside c) : S t ∧ (doc.element t).kind = .struct := by
  have hlinked := hdoc.linked hc
  unfold leadingOf at ht
  cases hbody : (doc.element c).body with
  | struct b =>
      simp only [hbody] at ht
      exact hinside ht
  | structRef r =>
      simp only [hbody] at ht hlinked
      obtain ⟨u, hu, hS, hkind⟩ := hlinked
      split at ht
      · cases ht
      · rw [hu, Option.mem_toList] at ht
        cases ht
        exact ⟨hS, hkind⟩
  | grammarRef g =>
      simp only [hbody] at ht
      obtain ⟨s, hs, hS, hkind⟩ := hdoc.start
      split at ht
      · cases ht
      · split at ht
        · rw [hs, Option.mem_toList] at ht
          cases ht
          exact ⟨hS, hkind⟩
        · cases ht
  | _ =>
      simp only [hbody] at ht
      cases ht

/-- What children lead to one of them leads to. -/
theorem of_mem_leadingOfAll {budget t : Nat} {inside : Nat → List Nat} : ∀ {cs : List Nat},
    t ∈ doc.leadingOfAll budget inside cs → ∃ c ∈ cs, t ∈ doc.leadingOf inside c
  | [], ht => by cases ht
  | c :: cs, ht => by
      have hrest (ht : t ∈ doc.leadingOfAll budget inside cs) :
          ∃ b ∈ c :: cs, t ∈ doc.leadingOf inside b := by
        obtain ⟨b, hb, ht⟩ := of_mem_leadingOfAll ht
        exact ⟨b, List.mem_cons_of_mem _ hb, ht⟩
      unfold leadingOfAll at ht
      split at ht
      · exact hrest ht
      · rcases List.mem_append.mp ht with ht | ht
        · exact ⟨c, List.mem_cons_self, ht⟩
        · split at ht
          · cases ht
          · exact hrest ht

/-- All edges of a sound document lead to structures of the grammar. -/
theorem leadingRefs_sound (hdoc : doc.Sound S) {t : Nat} : ∀ (budget : Nat) {i : Nat}, S i →
    t ∈ doc.leadingRefs budget i → S t ∧ (doc.element t).kind = .struct
  | 0, _, _, ht => by cases ht
  | budget + 1, i, hi, ht => by
      obtain ⟨c, hc, ht⟩ := of_mem_leadingOfAll ht
      have hS := hdoc.inside hi hc
      exact leadingOf_sound hdoc hS (leadingRefs_sound hdoc budget hS) ht

/-- The edges that the search follows. -/
theorem mem_leadingEdges (doc : Document) (i t : Nat) :
    t ∈ (doc.leadingEdges (doc.preorder.map (·.1))).getD i [] ↔ doc.Leads t i := by
  rw [getD_leadingEdges]
  by_cases hi : i ∈ doc.preorder.map (·.1) ∧ (doc.element i).kind = .struct
  · rw [if_pos hi]
    exact ⟨fun ht => ⟨hi.1, hi.2, ht⟩, fun ht => ht.2.2⟩
  · rw [if_neg hi]
    exact ⟨fun ht => (List.not_mem_nil ht).elim, fun ht => absurd ⟨ht.1, ht.2.1⟩ hi⟩

/-- A search that reports nothing has visited all structures of the grammar. -/
theorem checkRecursion_leads (hnumbered : doc.Numbered)
    (hbound : ∀ {t i : Nat}, doc.Leads t i → t < doc.elements.size)
    (h : doc.checkRecursion (doc.preorder.map (·.1)) = []) {i : Nat} (hi : doc.Listed i)
    (hkind : (doc.element i).kind = .struct) : Acc doc.Leads i := by
  have hedges (i t : Nat) (ht : t ∈ (doc.leadingEdges (doc.preorder.map (·.1))).getD i []) :
      t < doc.elements.size := hbound ((mem_leadingEdges doc i t).mp ht)
  have hstructures : ∀ t ∈ (doc.preorder.map (·.1)).filter fun i => (doc.element i).kind = .struct,
      t < doc.elements.size := by
    intro t ht
    have hlisted : doc.Listed t := (List.mem_filter.mp ht).1
    exact hlisted.lt_size hnumbered
  obtain ⟨_, hall⟩ := Search.foldl_follows (Search.Ready.lasting doc.elements.size)
    (fun hs ht => Search.visit_follows doc hedges (doc.elements.size + 1)
      (by rw [List.length_range]; exact Nat.lt_succ_self _) hs.2 ht (hs.1 _))
    _ hstructures (Search.ready_empty _)
  obtain ⟨hsettled, hdone⟩ := hall (Array.toList_eq_nil_iff.mp h)
    fun j hj => (by cases (Search.getElem?_empty j).symm.trans hj)
  have hacc := hsettled i (hdone i (List.mem_filter.mpr ⟨hi, decide_eq_true hkind⟩))
  exact Subrelation.accessible (fun {t i} ht => (mem_leadingEdges doc i t).mpr ht) hacc

/-- The search looks at the document as it is loaded. -/
theorem update_checkRecursion (h : doc.update.notes = []) :
    doc.update.value.checkRecursion (doc.update.value.preorder.map (·.1)) = [] := by
  have hshape := update_shape doc
  unfold update at h hshape ⊢
  obtain ⟨_, h⟩ := Noted.notes_bind_eq_nil h
  obtain ⟨_, h⟩ := Noted.notes_bind_eq_nil h
  obtain ⟨_, h⟩ := Noted.notes_bind_eq_nil h
  obtain ⟨_, h⟩ := Noted.notes_bind_eq_nil h
  obtain ⟨_, h⟩ := Noted.notes_bind_eq_nil h
  simp only [Noted.value_bind] at hshape ⊢
  rw [preorder_congr hshape, ← preorder_congr (register_shape doc)]
  exact h

theorem load_numbered (r : Record.Document) : (load r).value.Numbered := by
  unfold load
  rw [Noted.value_bind]
  exact (ofRecord_numbered r).sameShape (update_shape _)

/-- **In a document about which nothing is reported no structure leads on forever.** -/
theorem load_leads {r : Record.Document} (h : (load r).notes = []) :
    (load r).value.Sound (load r).value.Listed ∧ ∀ i, (load r).value.Listed i →
      ((load r).value.element i).kind = .struct → Acc (load r).value.Leads i := by
  have hnumbered := load_numbered r
  unfold load at h hnumbered ⊢
  rw [Noted.value_bind] at hnumbered ⊢
  obtain ⟨_, h⟩ := Noted.notes_bind_eq_nil h
  have hlisted : (ofRecord r).value.update.value.Listed = (ofRecord r).value.Listed :=
    funext fun i => propext (Listed.congr (update_shape _) i)
  have hsound := update_sound (ofRecord_numbered r) h
  rw [← hlisted] at hsound
  have hbound : ∀ {t i : Nat}, (ofRecord r).value.update.value.Leads t i →
      t < (ofRecord r).value.update.value.elements.size := by
    rintro t i ⟨hi, -, ht⟩
    exact (leadingRefs_sound hsound nestingLimit hi ht).1.lt_size hnumbered
  exact ⟨hsound, fun i hi hkind =>
    checkRecursion_leads hnumbered hbound (update_checkRecursion h) hi hkind⟩

end BinaryGrammar.Document
