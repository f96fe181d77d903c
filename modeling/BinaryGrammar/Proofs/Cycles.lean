import BinaryGrammar.Proofs.Phases

/-!
# Circles of bases

The search for an order of bases reports an element whose base is still being visited. It comes to
an element either from one that derives from it or from one that has it inside, so the element that
it reports lies on a ring of such links, with two links to bases one after the other. Such a ring
need not be a circle of bases: it may lead into a structure on the way and on from an element
inside. On the other hand no circle of bases is missed.

The main statements are `load_rings`, and `load_detour` for a grammar without a circle of bases
about which one is reported, unless its structures are declared in the other order.
-/

set_option autoImplicit false

namespace BinaryGrammar

namespace Document

/-- One element has another as its base or inside it. -/
def Involves (doc : Document) (x y : Nat) : Prop :=
  doc.DerivesFrom x y ∨ y ∈ (doc.element x).children

/-- An element lies on a ring of links to bases and to elements inside, which leaves it over its
base and the base of that. -/
def OnRing (doc : Document) (e : Nat) : Prop :=
  ∃ a b, doc.DerivesFrom e a ∧ doc.DerivesFrom a b ∧ Relation.ReflTransGen doc.Involves b e

namespace BaseOrder

variable {doc : Document} {o : BaseOrder} {i : Nat}

/-- What the search knows about the document that it started with. -/
structure Tracks (doc : Document) (o : BaseOrder) : Prop where
  /-- Labels and children are those of the document. -/
  core : SameCore doc o.doc
  /-- Bases are those of the document. -/
  bases : ∀ {e b : Nat}, o.doc.DerivesFrom e b → doc.DerivesFrom e b
  /-- A base is missing where a circle has been reported. -/
  missing : ∀ {e b : Nat}, doc.DerivesFrom e b → o.doc.DerivesFrom e b ∨
    .derivesCycle (doc.label e) ∈ o.notes
  /-- What has been reported lies on a ring. -/
  rings : ∀ {l : Label}, .derivesCycle l ∈ o.notes → ∃ e, doc.label e = l ∧ doc.OnRing e

theorem Tracks.start (doc : Document) : Tracks doc { doc } where
  core := .refl doc
  bases := id
  missing := Or.inl
  rings := fun h => by simp at h

/-- All elements that are being visited have bases that lead to an element. -/
def Above (doc : Document) (o : BaseOrder) (i : Nat) : Prop :=
  ∀ a : Nat, o.marks[a]? = some Mark.active →
    ∃ b, doc.DerivesFrom a b ∧ Relation.ReflTransGen doc.Involves b i

/-- What leads to an element leads to all that it involves. -/
theorem Above.step (h : Above doc o i) {j : Nat} (hij : doc.Involves i j) : Above doc o j :=
  fun a ha => (h a ha).imp fun _ hb => ⟨hb.1, hb.2.tail hij⟩

/-- Fewer elements are being visited. -/
theorem Above.mono {o' : BaseOrder} (h : Above doc o i)
    (hactive : ∀ {a : Nat}, o'.marks[a]? = some Mark.active → o.marks[a]? = some Mark.active) :
    Above doc o' i := fun a ha => h a (hactive ha)

/-- The link of an element to its base is reported and cut. -/
theorem Tracks.cut (h : Tracks doc o) (hring : doc.OnRing i) :
    Tracks doc { o with
      notes := o.notes.push (.derivesCycle (o.doc.label i))
      doc := o.doc.setBase i none } where
  core := h.core.trans (setBase_core o.doc i none)
  bases := fun {e b} he => by
    unfold DerivesFrom at he
    rw [base_setBase_none] at he
    split at he
    · cases he
    · exact h.bases he
  missing := fun {e b} he => by
    unfold DerivesFrom
    rw [base_setBase_none]
    split
    · rename_i hie
      refine Or.inr (Array.mem_push.mpr (Or.inr ?_))
      rw [← hie]
      exact congrArg Diagnostic.derivesCycle (h.core.label i).symm
    · exact (h.missing he).imp_right fun hmem => Array.mem_push.mpr (Or.inl hmem)
  rings := fun {l} hl => by
    rcases Array.mem_push.mp hl with hl | hl
    · exact h.rings hl
    · cases hl
      exact ⟨i, (h.core.label i).symm, hring⟩

/-- A later state of a search: it still knows the document, and no other elements are being
visited. -/
structure Tracked (doc : Document) (o o' : BaseOrder) : Prop where
  tracks : Tracks doc o'
  active : ∀ {a : Nat}, o'.marks[a]? = some Mark.active → o.marks[a]? = some Mark.active

theorem Tracked.refl (h : Tracks doc o) : Tracked doc o o := ⟨h, id⟩

theorem Tracked.trans {o₁ o₂ : BaseOrder} (h : Tracked doc o o₁) (h' : Tracked doc o₁ o₂) :
    Tracked doc o o₂ := ⟨h'.tracks, fun ha => h.active (h'.active ha)⟩

/-- Visits one after another. -/
theorem foldl_tracked {f : BaseOrder → Nat → BaseOrder} : ∀ (is : List Nat) {o : BaseOrder},
    Tracks doc o → (∀ {o : BaseOrder}, Tracks doc o → ∀ i ∈ is, Above doc o i →
      Tracked doc o (f o i)) →
    (∀ i ∈ is, Above doc o i) → Tracked doc o (is.foldl f o)
  | [], _, h, _, _ => .refl h
  | i :: is, o, h, hf, habove => by
      have hfirst := hf h i List.mem_cons_self (habove i List.mem_cons_self)
      refine hfirst.trans (foldl_tracked is hfirst.tracks ?_ ?_)
      · exact fun h j hj => hf h j (List.mem_cons_of_mem _ hj)
      · exact fun j hj => (habove j (List.mem_cons_of_mem _ hj)).mono hfirst.active

/-- An element that is done is not being visited, and all others are as before. -/
theorem Tracked.close {o₁ : BaseOrder} (h : Tracked doc (o.mark i .active) o₁) :
    Tracked doc o (o₁.mark i .done) where
  tracks := ⟨h.tracks.core, h.tracks.bases, h.tracks.missing, h.tracks.rings⟩
  active := fun {a} ha => by
    rw [getElem?_mark] at ha
    split at ha
    · cases ha
    · rename_i hia
      have hbefore := h.active ha
      rwa [getElem?_mark, if_neg hia] at hbefore

/-- An element that has been marked as active leads to its base, and only reports a base that leads
back to it. -/
theorem enter_tracked {depth : Nat} (h : Tracks doc o) (habove : Above doc o i)
    (hvisit : ∀ {o : BaseOrder} {j : Nat}, Tracks doc o → Above doc o j →
      Tracked doc o (visit depth o j)) :
    Tracked doc o (enter depth o i) := by
  have hactive : Tracks doc (o.mark i .active) := ⟨h.core, h.bases, h.missing, h.rings⟩
  unfold enter
  refine .close ?_
  dsimp only
  cases hbase : ((o.mark i .active).doc.element i).base with
  | none => exact .refl hactive
  | some base =>
      have hderives : doc.DerivesFrom i base := h.bases hbase
      have habove' : Above doc (o.mark i .active) base := by
        intro a ha
        rw [getElem?_mark] at ha
        split at ha
        · rename_i hia
          rw [← hia]
          exact ⟨base, hderives, .refl⟩
        · exact habove.step (Or.inl hderives) a ha
      dsimp only
      split
      · -- either the base is the element itself, or it leads to the element
        rename_i hcircle
        refine ⟨hactive.cut ?_, id⟩
        rcases hcircle with rfl | hcircle
        · exact ⟨_, _, hderives, hderives, .refl⟩
        · by_cases hself : base = i
          · subst hself
            exact ⟨_, _, hderives, hderives, .refl⟩
          · rw [getElem?_mark, if_neg fun h => hself h.symm] at hcircle
            obtain ⟨b, hb, hway⟩ := habove base hcircle
            exact ⟨base, b, hderives, hb, hway⟩
      · have hnext := hvisit hactive habove'
        exact ⟨⟨hnext.tracks.core, hnext.tracks.bases, hnext.tracks.missing, hnext.tracks.rings⟩,
          hnext.active⟩

/-- **A visit reports rings only.** -/
theorem visit_tracked : ∀ (depth : Nat) {o : BaseOrder} {i : Nat}, Tracks doc o → Above doc o i →
    Tracked doc o (visit depth o i)
  | 0, _, _, h, _ => .refl h
  | depth + 1, o, i, h, habove => by
      by_cases hi : o.marks[i]? = none
      · rw [visit_unmarked hi]
        -- the children are visited while the element has no mark, so it leads to them
        have hchildren := foldl_tracked (o.doc.element i).children h
          (fun h _ _ habove => visit_tracked depth h habove) fun c hc =>
            habove.step (Or.inr (by rwa [h.core.children] at hc))
        dsimp only
        split
        · exact hchildren
        · exact hchildren.trans (enter_tracked hchildren.tracks (habove.mono hchildren.active)
            (visit_tracked depth))
      · have hsame : visit (depth + 1) o i = o := by
          unfold visit
          rw [if_pos (contains_iff.mpr hi)]
        rw [hsame]
        exact .refl h

end BaseOrder

/-- The search over a whole document. -/
theorem baseOrder_tracks (doc : Document) : BaseOrder.Tracks doc.withBases doc.baseOrder := by
  have hnone (a : Nat) : ({} : Std.HashMap Nat Mark)[a]? = none := Std.HashMap.getElem?_empty
  refine (BaseOrder.foldl_tracked _ (.start doc.withBases)
    (fun h _ _ habove => BaseOrder.visit_tracked _ h habove) fun i _ a ha => ?_).tracks
  cases (hnone a).symm.trans ha

/-- On a circle of bases a link has been cut, and so the element that had it has been reported. -/
theorem baseOrder_reports {doc : Document} (hdoc : doc.Numbered) (hunlinked : doc.Unlinked)
    {e : Nat} (he : Relation.TransGen doc.withBases.DerivesFrom e e) :
    ∃ x, Relation.ReflTransGen doc.withBases.DerivesFrom e x ∧
      Relation.TransGen doc.withBases.DerivesFrom x e ∧
      .derivesCycle (doc.withBases.label x) ∈ doc.baseOrder.notes := by
  have htracks := baseOrder_tracks doc
  obtain ⟨_, _, hordered, hdone⟩ := baseOrder_visits hdoc
  by_contra hsilent
  push Not at hsilent
  -- without a report every link of the circle is still there when all elements are done
  have hkept : ∀ {x y : Nat}, Relation.TransGen doc.withBases.DerivesFrom x y →
      Relation.ReflTransGen doc.withBases.DerivesFrom e x →
      Relation.ReflTransGen doc.withBases.DerivesFrom y e →
      Relation.TransGen doc.baseOrder.doc.DerivesFrom x y := by
    intro x y hxy
    induction hxy with
    | single hxy =>
        intro hex hye
        refine .single ((htracks.missing hxy).resolve_right (hsilent x hex ?_))
        exact .head' hxy hye
    | tail hxy hyz ih =>
        intro hex hze
        refine (ih hex (.head hyz hze)).tail ((htracks.missing hyz).resolve_right ?_)
        exact hsilent _ (hex.trans hxy.to_reflTransGen) (.head' hyz hze)
  have hcycle := hkept he .refl .refl
  have hwf := hordered.wellFounded fun e he => hdone e (baseOrder_listed hdoc hunlinked he)
  exact hwf.transGen.irrefl.irrefl e (Relation.transGen_swap.mpr hcycle)

theorem derivesCycle_mem_load (r : Record.Document) (l : Label) :
    .derivesCycle l ∈ (load r).notes ↔ .derivesCycle l ∈ (ofRecord r).value.baseOrder.notes := by
  rw [← Array.mem_toList_iff, ← load_ordering r, List.mem_filter]
  exact ⟨fun h => ⟨h, rfl⟩, fun h => h.1⟩

/-- **Circles of bases are reported, and rings only.** Every element about which a circle is
reported lies on a ring of links to bases and to elements inside, and on every circle of bases there
is an element about which one is reported. -/
theorem load_rings (r : Record.Document) :
    let doc := (ofRecord r).value.withBases
    (∀ l, .derivesCycle l ∈ (load r).notes → ∃ e, doc.label e = l ∧ doc.OnRing e) ∧
    ∀ e, Relation.TransGen doc.DerivesFrom e e →
      ∃ x, Relation.ReflTransGen doc.DerivesFrom e x ∧ Relation.TransGen doc.DerivesFrom x e ∧
        .derivesCycle (doc.label x) ∈ (load r).notes := by
  refine ⟨fun l hl => ?_, fun e he => ?_⟩
  · exact (baseOrder_tracks _).rings ((derivesCycle_mem_load r l).mp hl)
  · obtain ⟨x, hex, hxe, hx⟩ :=
      baseOrder_reports (ofRecord_numbered r) (ofRecord_unlinked r) he
    exact ⟨x, hex, hxe, (derivesCycle_mem_load r _).mpr hx⟩

end Document

/-! ## A ring that is no circle of bases

The structure `s` derives from `t`, and a structure inside `t` derives from `s`. -/

namespace Record

/-- The structure that derives from the other. -/
def Element.short : Record.Element := .struct { id := 1, name := "s", derives := "id:2" } {} []

/-- The structure with one inside that derives from the first. -/
def Element.tall : Record.Element :=
  .struct { id := 2, name := "t" } {} [.struct { id := 3, name := "c", derives := "id:1" } {} []]

/-- The grammar with the structure that derives from the other first. -/
def Document.detour : Record.Document where
  grammar := { start := "id:1", elements := [.short, .tall] }

/-- The same grammar with that structure last. -/
def Document.direct : Record.Document where
  grammar := { start := "id:1", elements := [.tall, .short] }

end Record

namespace Document

/-- Its document before it is linked. -/
def detour : Document :=
  .ofParts "" { start := some { reference := .id 1 }, elements := [0, 2] }
    #[{ ident := { id := 1, name := "s" }, derives := some { reference := .id 2 }
        body := .struct {} },
      { ident := { id := 3, name := "c" }, derives := some { reference := .id 1 }
        body := .struct {} },
      { ident := { id := 2, name := "t" }, body := .struct { elements := [1] } }] #[]

/-- The document with the other order before it is linked. -/
def direct : Document :=
  .ofParts "" { start := some { reference := .id 1 }, elements := [1, 2] }
    #[{ ident := { id := 3, name := "c" }, derives := some { reference := .id 1 }
        body := .struct {} },
      { ident := { id := 2, name := "t" }, body := .struct { elements := [0] } },
      { ident := { id := 1, name := "s" }, derives := some { reference := .id 2 }
        body := .struct {} }] #[]

theorem ofRecord_detour : ofRecord .detour = { value := detour } ∧
    ofRecord .direct = { value := direct } := by
  have hlink {α : Type} : (Link.parse? "id:1" : Option (Link α)) = some { reference := .id 1 } ∧
      (Link.parse? "id:2" : Option (Link α)) = some { reference := .id 2 } := ⟨rfl, rfl⟩
  unfold ofRecord Record.Document.detour Record.Document.direct Record.Element.short
    Record.Element.tall
  constructor
  · simp only [Build.addElements, Build.addElement, Build.struct, hlink]
    rfl
  · simp only [Build.addElements, Build.addElement, Build.struct, hlink]
    rfl

/-- The bases that are found. -/
theorem detour_bases (e : Nat) : ((ofRecord .detour).value.withBases.element e).base =
    if e = 0 then some 2 else if e = 1 then some 0 else none := by
  obtain ⟨names, hnames⟩ := register_names detour
  rw [ofRecord_detour.1]
  by_cases he : e < 4
  · unfold withBases
    rw [hnames]
    clear hnames
    interval_cases e <;> cbv
  · rw [BaseOrder.element_of_size_le, if_neg (by omega), if_neg (by omega)]
    · rfl
    · rw [(withBases_shape detour).size]
      exact Nat.le_of_not_lt he

/-- **A circle is reported although bases do not go in a circle**, and it is not reported when the
structures are declared in the other order. -/
theorem load_detour : (∀ e, ¬Relation.TransGen (ofRecord .detour).value.withBases.DerivesFrom e e) ∧
    (load .detour).notes = [.derivesCycle ⟨.struct, 3, "c"⟩] ∧ (load .direct).notes = [] := by
  refine ⟨fun e hcycle => ?_, ?_, ?_⟩
  · -- one step from 1 to 0 and one from 0 to 2, which has no base
    let rank (e : Nat) : Nat := if e = 1 then 2 else if e = 0 then 1 else 0
    have hdown : ∀ {x y : Nat},
        Relation.TransGen (ofRecord .detour).value.withBases.DerivesFrom x y →
        rank y < rank x := by
      have hstep : ∀ {x y : Nat}, (ofRecord .detour).value.withBases.DerivesFrom x y →
          rank y < rank x := by
        intro x y hxy
        unfold DerivesFrom at hxy
        rw [detour_bases] at hxy
        split at hxy
        · cases hxy
          subst x
          decide
        · split at hxy
          · cases hxy
            subst x
            decide
          · cases hxy
      intro x y hxy
      induction hxy with
      | single hxy => exact hstep hxy
      | tail _ hyz ih => exact Nat.lt_trans (hstep hyz) ih
    exact Nat.lt_irrefl _ (hdown hcycle)
  · obtain ⟨names, hnames⟩ := register_names detour
    unfold load update
    rw [ofRecord_detour.1, Noted.notes_bind, hnames]
    clear hnames
    cbv
  · obtain ⟨names, hnames⟩ := register_names direct
    unfold load update
    rw [ofRecord_detour.2, Noted.notes_bind, hnames]
    clear hnames
    cbv

end Document

end BinaryGrammar
