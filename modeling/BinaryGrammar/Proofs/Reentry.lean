import BinaryGrammar.Proofs.Consumption
import BinaryGrammar.Proofs.Parallel
import BinaryGrammar.Proofs.Search

/-!
# Structures that are entered again

A structure is entered again without input when, inside an instance of it that is still being read,
an element opens it at the place where that instance began. Such an element would do the same once
more, and decoding would end only for its depth.

Loading a document searches for this. To say that nothing is missed, reading is given a guard: an
element that is about to enter a structure again is handed over to another reader, whichever. The
main statement is `decode_guarded`: for a document about which nothing was reported, the guard makes
no difference, so that no run comes to such an element. The argument is that whatever is entered
where a structure begins is one of the structures that it `Enters`, because the elements before it
have not moved the cursor; and `Enters` does not go round in circles because the edges of the search
do not.

Two things are left to the grammar: that what counts as consuming is `Substantial` where decoding
comes to it, and that structures are nested less deep than the search looks. `decode_hollow` shows
what is missed otherwise.
-/

set_option autoImplicit false

namespace BinaryGrammar

namespace Document

variable {doc : Document} {S : Nat → Prop} {s u : Nat}

/-! ## What a structure enters where it begins -/

/-- An element that may leave the cursor where it was: it never occurs, or does not count as
consuming. -/
def Passable (doc : Document) (i : Nat) : Prop :=
  (doc.repeatMax i).constant? = some 0 ∨ ∀ k, doc.consumes k i = false

/-- A structure `s` enters `u` where it begins: one of its elements opens `u`, and those before it
may leave the cursor where it was. -/
def Enters (doc : Document) (u s : Nat) : Prop :=
  ∃ before c after body, (doc.element s).children = before ++ c :: after ∧
    (∀ b ∈ before, doc.Passable b) ∧ (doc.repeatMax c).constant? ≠ some 0 ∧
    doc.structureOf? c = some (u, body)

/-- Whether structures are nested in a structure at most so many deep, itself included. -/
def nestedWithin (doc : Document) : Nat → Nat → Bool
  | 0, _ => false
  | depth + 1, i => (doc.element i).children.all fun c =>
    match (doc.element c).body with
    | .struct _ => doc.nestedWithin depth c
    | _ => true

/-- An element after others that may leave the cursor where it was is looked at. -/
theorem mem_leadingOfAll (budget : Nat) {t c : Nat} {inside : Nat → List Nat}
    (hc : (doc.repeatMax c).constant? ≠ some 0) (ht : t ∈ doc.leadingOf inside c)
    (after : List Nat) : ∀ before : List Nat, (∀ b ∈ before, doc.Passable b) →
    t ∈ doc.leadingOfAll budget inside (before ++ c :: after)
  | [], _ => by
      rw [List.nil_append, leadingOfAll, if_neg hc]
      exact List.mem_append_left _ ht
  | b :: before, hbefore => by
      have hrest := mem_leadingOfAll budget hc ht after before
        (fun b' hb' => hbefore b' (List.mem_cons_of_mem _ hb'))
      rw [List.cons_append, leadingOfAll]
      split
      · exact hrest
      · rename_i hmax
        rcases hbefore b List.mem_cons_self with hzero | hnever
        · exact absurd hzero hmax
        · rw [hnever budget, if_neg Bool.false_ne_true]
          exact List.mem_append_right _ hrest

/-- What a structure enters where it begins is an edge of the search, or a structure nested in it
whose edges are among its own. -/
theorem Enters.edge (h : doc.Enters u s) :
    (∀ k, u ∈ doc.leadingRefs (k + 1) s) ∨
    ∃ body, u ∈ (doc.element s).children ∧ (doc.element u).body = .struct body ∧
      ∀ k, doc.leadingRefs k u ⊆ doc.leadingRefs (k + 1) s := by
  obtain ⟨before, c, after, body, hchildren, hbefore, hc, hu⟩ := h
  have hleads {k t : Nat} (ht : t ∈ doc.leadingOf (doc.leadingRefs k) c) :
      t ∈ doc.leadingRefs (k + 1) s := by
    unfold leadingRefs
    rw [hchildren]
    exact mem_leadingOfAll k hc ht after before hbefore
  unfold structureOf? at hu
  cases hbody : (doc.element c).body with
  | struct b =>
      simp only [hbody] at hu
      cases hu
      refine Or.inr ⟨body, ?_, hbody, fun k t ht => hleads ?_⟩
      · rw [hchildren]
        exact List.mem_append_right _ List.mem_cons_self
      · unfold leadingOf
        simp only [hbody]
        exact ht
  | structRef r =>
      simp only [hbody] at hu
      refine Or.inl fun k => hleads ?_
      unfold leadingOf
      simp only [hbody]
      split at hu
      · cases hu
      · rename_i hdisabled
        obtain ⟨t, ht, hstruct⟩ := Option.bind_eq_some_iff.mp hu
        obtain ⟨rfl, _⟩ := structAt?_eq_some hstruct
        rw [if_neg hdisabled, ht]
        exact List.mem_singleton_self _
  | grammarRef g =>
      simp only [hbody] at hu
      refine Or.inl fun k => hleads ?_
      unfold leadingOf
      simp only [hbody]
      split at hu
      · cases hu
      · rename_i hdisabled
        split at hu
        · cases hu
        · rename_i hgrammar
          obtain ⟨t, ht, hstruct⟩ := Option.bind_eq_some_iff.mp hu
          obtain ⟨rfl, _⟩ := structAt?_eq_some hstruct
          rw [if_neg hdisabled, ht]
          cases hlink : g.grammar.bind (·.target) with
          | none =>
              rw [hlink] at hgrammar
              exact absurd rfl hgrammar
          | some own => exact List.mem_singleton_self _
  | _ =>
      simp only [hbody] at hu
      cases hu

/-- **A structure does not enter itself**, if the edges of the search do not go round in circles and
nothing is nested deeper than the search looks. -/
theorem enters_acc (hdoc : doc.Sound doc.Listed)
    (hnested : ∀ i, doc.Listed i → doc.nestedWithin nestingLimit i = true)
    (hleads : ∀ i, doc.Listed i → (doc.element i).kind = .struct → Acc doc.Leads i) {i : Nat}
    (hi : doc.Listed i) (hkind : (doc.element i).kind = .struct) : Acc doc.Enters i := by
  induction hleads i hi hkind with
  | intro i _ ih =>
      -- on the depth of nesting: what is nested has no edges but those of `i`
      have hinside (depth : Nat) : ∀ {s : Nat}, doc.nestedWithin depth s = true → doc.Listed s →
          doc.leadingRefs depth s ⊆ doc.leadingRefs nestingLimit i → Acc doc.Enters s := by
        induction depth with
        | zero =>
            intro s hs
            cases hs
        | succ depth ihdepth =>
            intro s hs hlisted hsub
            refine Acc.intro s fun u hu => ?_
            rcases hu.edge with hedge | ⟨body, hmem, hbody, hedges⟩
            · -- by reference
              have hu := hsub (hedge depth)
              obtain ⟨hlisted', hkind'⟩ := leadingRefs_sound hdoc nestingLimit hi hu
              exact ih u ⟨hi, hkind, hu⟩ hlisted' hkind'
            · refine ihdepth ?_ (hdoc.inside hlisted hmem) (fun t ht => hsub (hedges depth ht))
              have hall := List.all_eq_true.mp hs u hmem
              rwa [hbody] at hall
      exact hinside nestingLimit (hnested i hi) hi (List.Subset.refl _)

/-- An element nests nothing deeper than its number, because what is inside an element has a lower
number. -/
theorem nestedWithin_of_lt (hdoc : doc.Numbered) : ∀ (depth : Nat) {i : Nat}, i < depth →
    doc.nestedWithin depth i = true
  | 0, _, hi => absurd hi (Nat.not_lt_zero _)
  | depth + 1, i, hi => by
      refine List.all_eq_true.mpr fun c hc => ?_
      have hci := hdoc.below i c hc
      split
      · exact nestedWithin_of_lt hdoc depth (by omega)
      · rfl

theorem not_enters_self (h : Acc doc.Enters u) : ¬Relation.TransGen doc.Enters u u := by
  have hacc := h.transGen
  clear h
  induction hacc with
  | intro u _ ih => exact fun hu => ih u hu hu

end Document

/-- What is done after the same beginning is the same if it is so where the beginning leads to. -/
theorem Reader.bind_congr {ε τ α β : Type} {x y : EStateM ε τ α} {f g : α → EStateM ε τ β} {s : τ}
    (hx : x s = y s) (hf : ∀ a s', y s = .ok a s' → f a s' = g a s') :
    (x >>= f) s = (y >>= g) s := by
  cases hy : y s with
  | ok a s' =>
      rw [Reader.bind_of_ok (hx.trans hy), Reader.bind_of_ok hy]
      exact hf a s' hy
  | error e s' => rw [Reader.bind_of_error (hx.trans hy), Reader.bind_of_error hy]

namespace Decoder

variable {σ : Type} {d : Decoder σ} {outer ctx : Context} {c₀ : Cursor σ}

/-! ## Reading with a guard -/

/-- Whether an element opens a structure that is one of those opened already, at the same place. -/
def reenters (d : Decoder σ) (opened : List (Nat × Nat)) (i pos : Nat) : Bool :=
  match d.document.structureOf? i with
  | some (s, _) => (s, pos) ∈ opened
  | none => false

/-- The structures that are open inside an element, with the places where they were opened. -/
def opening (d : Decoder σ) (opened : List (Nat × Nat)) (i pos : Nat) : List (Nat × Nat) :=
  match d.document.structureOf? i with
  | some (s, _) => (s, pos) :: opened
  | none => opened

/-- Read an element with so many levels of nesting left, inside the structures that have been
opened; but hand it over to `other` if it would enter one of them again without input. -/
def readGuarded (d : Decoder σ) (other : ElementReader σ) : Nat → List (Nat × Nat) → ElementReader σ
  | 0, _, _, i => throw { cause := .tooDeep depthLimit, path := [(d.document.element i).name] }
  | levels + 1, opened, ctx, i => fun c =>
    if d.reenters opened i c.pos then other ctx i c
    else
      match d.readBody (d.readGuarded other levels (d.opening opened i c.pos)) ctx i c with
      | .ok v c' => .ok v c'
      | .error failure c' =>
        .error (failure.within (d.document.element i).name) { c' with pos := c.pos }

/-- Read the start structure at the cursor with the guard. -/
def decodeGuarded (d : Decoder σ) (other : ElementReader σ) : Reader σ Value :=
  match d.document.start with
  | some i => d.readGuarded other depthLimit [] {} i
  | none => Reader.fail (.danglingReference "start")

/-! ## Readers that agree -/

section

variable {read₁ read₂ : ElementReader σ} {i start child : Nat}

/-- Fields without fields of their own do not read elements. -/
theorem readBody_of_field (h : d.document.structureOf? i = none) :
    d.readBody read₁ ctx i = d.readBody read₂ ctx i := by
  unfold readBody
  unfold Document.structureOf? at h
  cases hbody : (d.document.element i).body with
  | struct b =>
      simp only [hbody] at h
      cases h
  | structRef r =>
      simp only [hbody] at h ⊢
      split
      · rfl
      · rename_i hdisabled
        rw [if_neg hdisabled] at h
        rw [readTarget_none h, readTarget_none h]
  | grammarRef g =>
      simp only [hbody] at h ⊢
      split
      · rfl
      · rename_i hdisabled
        rw [if_neg hdisabled] at h
        split
        · rfl
        · rename_i hgrammar
          rw [if_neg hgrammar] at h
          rw [readTarget_none h, readTarget_none h]
  | _ => rfl

theorem attempt_congr {p : Progress σ} {enough : Bool}
    (h : read₁ (p.context outer) child p.cursor = read₂ (p.context outer) child p.cursor) :
    d.attempt read₁ outer i start child enough p =
      d.attempt read₂ outer i start child enough p := by
  unfold attempt
  rw [h]

/-- The instances of an element are the same if readers agree where one is read. -/
theorem readInstances_congr {T : Nat → Nat → Progress σ → Prop} {least : Int}
    (hsame : ∀ {allowed count : Nat} {p : Progress σ}, T (allowed + 1) count p →
      p.exhausted outer = false →
      read₁ (p.context outer) child p.cursor = read₂ (p.context outer) child p.cursor)
    (hstep : ∀ {allowed count : Nat} {p p' : Progress σ}, T (allowed + 1) count p →
      p.exhausted outer = false →
      d.attempt read₂ outer i start child (least ≤ count) p = .ok .more p' →
      T allowed (count + 1) p') :
    ∀ (allowed count : Nat) {p : Progress σ}, T allowed count p →
    d.readInstances read₁ outer i start child least allowed count p =
      d.readInstances read₂ outer i start child least allowed count p
  | 0, _, _, _ => rfl
  | allowed + 1, count, p, hp => by
      by_cases hroom : p.exhausted outer = true
      · rw [readInstances_exhausted hroom, readInstances_exhausted hroom]
      · rw [readInstances_succ hroom, readInstances_succ hroom]
        rw [Bool.not_eq_true] at hroom
        refine Reader.bind_congr (attempt_congr (hsame hp hroom)) fun a p' hattempt => ?_
        cases a with
        | done => rfl
        | more =>
            dsimp only
            split
            · exact readInstances_congr hsame hstep allowed (count + 1) (hstep hp hroom hattempt)
            · rfl

theorem readStructure_congr {label : Nat} {body : StructBody} {c : Cursor σ}
    (h : d.document.order i = .fixed → c.pos % 8 = 0 →
      d.readFields read₁ outer i c.pos body.elements { cursor := c } =
        d.readFields read₂ outer i c.pos body.elements { cursor := c }) :
    d.readStructure read₁ outer label i body c = d.readStructure read₂ outer label i body c := by
  unfold readStructure
  refine Reader.bind_congr rfl fun _ c₁ hrequire => ?_
  obtain ⟨horder, rfl⟩ := Reader.require_ok hrequire
  refine Reader.bind_congr rfl fun _ c₂ haligned => ?_
  obtain ⟨hal, rfl⟩ := Reader.require_ok (haligned : Reader.require (c₁.pos % 8 = 0) _ c₁ = _)
  refine Reader.bind_congr rfl fun start c₃ hpos => ?_
  cases hpos
  dsimp only
  rw [h horder hal]

end

/-! ## Guards that are never needed -/

/-- Structures have been opened, none of them after the cursor; and those that were opened where the
cursor is lead to the structure that an element opens, each by entering another where it begins. -/
def Chained (doc : Document) (opened : List (Nat × Nat)) (i pos : Nat) : Prop :=
  ∀ s start, (s, start) ∈ opened → start ≤ pos ∧ (start = pos → ∀ u body,
    doc.structureOf? i = some (u, body) → Relation.TransGen doc.Enters u s)

/-- What is known about the elements of a structure that have had their turn: as long as the cursor
is where the structure begins, they may leave it there. -/
structure Begun (doc : Document) (start : Nat) (before : List Nat) (p : Progress σ) : Prop where
  start_le : start ≤ p.cursor.pos
  passed : p.cursor.pos = start → ∀ b ∈ before, doc.Passable b

/-- With so many levels left, an element that decoding comes to inside structures that lead to it is
read as without a guard. -/
def Unguarded (d : Decoder σ) (c₀ : Cursor σ) (S : Nat → Prop) (other : ElementReader σ)
    (levels : Nat) : Prop :=
  ∀ {opened : List (Nat × Nat)} {ctx : Context} {i : Nat} {c : Cursor σ}, S i →
    d.Meets c₀ levels ctx i c → Chained d.document opened i c.pos →
    d.readGuarded other levels opened ctx i c = d.readElement levels ctx i c

/-- Inside a structure its elements are chained as well. -/
theorem Chained.inside {doc : Document} {opened : List (Nat × Nat)} {i s start child : Nat}
    {body : StructBody} {before after : List Nat} {p : Progress σ} (h : Chained doc opened i start)
    (hs : doc.structureOf? i = some (s, body))
    (hchildren : (doc.element s).children = before ++ child :: after)
    (hchild : (doc.repeatMax child).constant? ≠ some 0) (hp : Begun doc start before p) :
    Chained doc ((s, start) :: opened) child p.cursor.pos := by
  have hstart := hp.start_le
  -- only where the structure begins anything can be entered again
  have henters (hpos : p.cursor.pos = start) {u : Nat} {b : StructBody}
      (hu : doc.structureOf? child = some (u, b)) : doc.Enters u s :=
    ⟨before, child, after, b, hchildren, hp.passed hpos, hchild, hu⟩
  intro t q hmem
  rcases List.mem_cons.mp hmem with heq | hmem
  · cases heq
    exact ⟨hstart, fun hpos u b hu => .single (henters hpos.symm hu)⟩
  · obtain ⟨hle, hchain⟩ := h t q hmem
    refine ⟨Nat.le_trans hle hstart, fun hpos u b hu => ?_⟩
    have hq : q = start := by omega
    exact Relation.TransGen.trans (.single (henters (by omega) hu)) (hchain hq s body hs)

section

variable (hsubstantial : ∀ k i, d.document.consumes k i = true → d.Substantial c₀ i)
include hsubstantial

/-- After its turn an element may have left the cursor where it was, or has moved it. -/
theorem Begun.turn {levels label i start child : Nat} {before rest : List Nat} {least most : Int}
    {p p' : Progress σ} {u : Unit} (hp : Begun d.document start before p)
    (h : d.Traverses c₀ levels outer label start (.between (child :: rest)) p)
    (hroom : p.exhausted outer = false)
    (hleast : d.evaluate (p.context outer) (d.document.repeatMin child) = .ok least)
    (hmost : d.evaluate (p.context outer) (d.document.repeatMax child) = .ok most)
    (hok : d.readInstances (d.readElement levels) outer i start child least
      (allowedInstances most) 0 p = .ok u p') : Begun d.document start (before ++ [child]) p' := by
  have hstart := hp.start_le
  have hle := readInstances_forward hok
  refine ⟨by omega, fun hpos b hb => ?_⟩
  rcases List.mem_append.mp hb with hb | hb
  · exact hp.passed (by omega) b hb
  · rw [List.mem_singleton] at hb
    subst hb
    refine Or.inr fun k => ?_
    cases hconsumes : d.document.consumes k b with
    | false => rfl
    | true =>
        have hlt := h.turn_moves hconsumes (hsubstantial k b hconsumes)
          (fun hb' => readElement_moves hsubstantial levels hb' hconsumes) hroom hleast hmost hok
        omega

variable {S : Nat → Prop} (hdoc : d.document.Sound S) {other : ElementReader σ} {levels : Nat}
include hdoc

/-- The elements of a structure are read as without a guard, if each of them is. -/
theorem readElements_guarded {i s start : Nat} {body : StructBody} {opened : List (Nat × Nat)}
    (hsame : d.Unguarded c₀ S other levels) (hi : S i)
    (hs : d.document.structureOf? i = some (s, body))
    (hchained : Chained d.document opened i start) :
    ∀ (rest before : List Nat) {p : Progress σ}, body.elements = before ++ rest →
    d.Traverses c₀ levels outer i start (.between rest) p → Begun d.document start before p →
    d.readElements (d.readGuarded other levels ((s, start) :: opened)) outer s start rest p =
      d.readElements (d.readElement levels) outer s start rest p
  | [], _, _, _, _, _ => rfl
  | child :: rest, before, p, hbody, h, hp => by
      have hchildren : (d.document.element s).children = before ++ child :: rest := by
        unfold Element.children
        rw [(hdoc.structureOf hi hs).2]
        exact hbody
      have hSchild : S child :=
        hdoc.field hi hs (hbody ▸ List.mem_append_right _ List.mem_cons_self)
      unfold readElements
      rw [Reader.get_bind, Reader.get_bind]
      by_cases hroom : p.exhausted outer = true
      · rw [if_pos hroom, if_pos hroom]
      · rw [if_neg hroom, if_neg hroom]
        rw [Bool.not_eq_true] at hroom
        refine Reader.bind_congr rfl fun least p₁ hleast => ?_
        obtain ⟨hleast, rfl⟩ := bound_ok hleast
        refine Reader.bind_congr rfl fun most p₂ hmost => ?_
        obtain ⟨hmost, rfl⟩ := bound_ok hmost
        have hturn := h.begun hroom hleast hmost
        refine Reader.bind_congr ?_ fun _ p₃ hinstances => ?_
        · by_cases hzero : (d.document.repeatMax child).constant? = some 0
          · -- there are no instances
            have hmax : d.document.repeatMax child = .constant 0 := by
              cases hexpression : d.document.repeatMax child with
              | formula text =>
                  rw [hexpression] at hzero
                  cases hzero
              | constant k =>
                  rw [hexpression] at hzero
                  cases hzero
                  rfl
            rw [hmax, evaluate_constant] at hmost
            cases hmost
            rfl
          · refine readInstances_congr (T := fun allowed count q =>
              d.Traverses c₀ levels outer i start (.turn child least allowed count rest) q ∧
                Begun d.document start before q) ?_ ?_ _ 0 ⟨hturn, hp⟩
            · rintro allowed count q ⟨hq, hbegun⟩ hopen
              exact hsame hSchild (.field hq hopen) (hchained.inside hs hchildren hzero hbegun)
            · rintro allowed count q q' ⟨hq, hbegun⟩ hopen hattempt
              have hle := attempt_forward hattempt
              have hstart := hbegun.start_le
              exact ⟨hq.tried hs hopen hattempt, by omega, fun hpos => hbegun.passed (by omega)⟩
        · refine readElements_guarded hsame hi hs hchained rest (before ++ [child]) ?_ ?_ ?_
          · rw [hbody, List.append_assoc]
            rfl
          · exact (hturn.readInstances hs (P := fun _ => True) (fun _ _ _ => id) _ 0 trivial
              hinstances).1
          · exact hp.turn hsubstantial h hroom hleast hmost hinstances

theorem readFields_guarded {i s : Nat} {body : StructBody} {opened : List (Nat × Nat)}
    {c : Cursor σ} (hsame : d.Unguarded c₀ S other levels) (hi : S i)
    (hs : d.document.structureOf? i = some (s, body)) (hmeets : d.Meets c₀ (levels + 1) outer i c)
    (hchained : Chained d.document opened i c.pos) (horder : d.document.order s = .fixed)
    (hal : c.pos % 8 = 0) :
    d.readFields (d.readGuarded other levels ((s, c.pos) :: opened)) outer s c.pos body.elements
        { cursor := c } =
      d.readFields (d.readElement levels) outer s c.pos body.elements { cursor := c } := by
  unfold readFields
  refine Reader.bind_congr rfl fun _ p₀ hsettle => ?_
  have hcursor : p₀.cursor = c := (settle_ok hsettle).cursor
  have hbegun : Begun d.document c.pos [] p₀ :=
    ⟨Nat.le_of_eq (congrArg Cursor.pos hcursor.symm), fun _ => nofun⟩
  exact Reader.bind_congr
    (readElements_guarded hsubstantial hdoc hsame hi hs hchained body.elements [] rfl
      (.opened hmeets hs horder hal hsettle) hbegun)
    fun _ _ _ => rfl

/-- **A guard makes no difference to an element inside structures that lead to it**, if no structure
leads to itself. -/
theorem readGuarded_eq (hacc : ∀ {u : Nat} {body : StructBody}, S u →
    (d.document.element u).body = .struct body → Acc d.document.Enters u) :
    ∀ levels : Nat, d.Unguarded c₀ S other levels
  | 0, _, _, _, _, _, _, _ => rfl
  | levels + 1, opened, ctx, i, c, hi, hmeets, hchained => by
      have hbody : d.readBody (d.readGuarded other levels (d.opening opened i c.pos)) ctx i c =
          d.readBody (d.readElement levels) ctx i c := by
        cases hs : d.document.structureOf? i with
        | none => rw [readBody_of_field hs]
        | some opens =>
            obtain ⟨s, body⟩ := opens
            unfold opening
            rw [hs, readBody_of_structure hs, readBody_of_structure hs]
            exact readStructure_congr (readFields_guarded hsubstantial hdoc
              (readGuarded_eq hacc levels) hi hs hmeets hchained)
      have hguard : d.reenters opened i c.pos = false := by
        unfold reenters
        cases hs : d.document.structureOf? i with
        | none => rfl
        | some opens =>
            obtain ⟨s, body⟩ := opens
            obtain ⟨hS, hstruct⟩ := hdoc.structureOf hi hs
            refine decide_eq_false fun hmem => ?_
            have hself := (hchained s c.pos hmem).2 rfl s body hs
            exact Document.not_enters_self (hacc hS hstruct) hself
      unfold readGuarded
      rw [hguard, if_neg Bool.false_ne_true, hbody]
      cases hread : d.readBody (d.readElement levels) ctx i c with
      | ok v c' => exact (readElement_of_ok hread).symm
      | error f c' => exact (readElement_of_error hread).symm

end

/-- **No structure is entered again without input.** Take a document about which nothing was
reported and in which structures are nested less deep than is searched, and decode any source from
any place, with scripts or without. If nothing that counts as consuming comes out as zero where
decoding comes to it, then an element that would enter a structure again, inside an instance that
began at the same place, may be handed over to some other reader, and the outcome is the same: there
is no such element. -/
theorem decode_guarded {r : Record.Document} (hr : (Document.load r).notes = [])
    (hd : d.document = (Document.load r).value)
    (hnested : ∀ i, d.document.Listed i →
      d.document.nestedWithin Document.nestingLimit i = true)
    {c : Cursor σ} (hsubstantial : ∀ k i, d.document.consumes k i = true → d.Substantial c i)
    (other : ElementReader σ) : d.decodeGuarded other c = d.decode c := by
  obtain ⟨hsound, hleads⟩ := Document.load_leads hr
  rw [← hd] at hsound hleads
  obtain ⟨start, hstart, hlisted, _⟩ := hsound.start
  unfold decodeGuarded decode read
  rw [hstart]
  refine readGuarded_eq hsubstantial hsound (fun hS hstruct => ?_) depthLimit hlisted
    (.start hstart) nofun
  refine Document.enters_acc hsound hnested hleads hS ?_
  unfold Element.kind
  rw [hstruct]
  rfl

end Decoder

/-! ## A list

A list is a byte and, unless the data end, another list. Every instance begins after the byte of the
one around it. -/

/-- The grammar as it is written. -/
def Record.Document.chain : Record.Document where
  grammar :=
    { start := "id:1"
      elements :=
        [.struct { id := 1 } {}
          [.number {} { length := "1" }, .structRef { repeatmin := "0" } { target := "id:1" }]] }

/-- The grammar before it is linked. -/
def Document.chain : Document :=
  .ofParts "" { start := some { reference := .id 1 }, elements := [2] }
    #[{ body := .number { length := some (.constant 1) } },
      { repeats := { min := some (.constant 0) },
        body := .structRef { target := some { reference := .id 1 } } },
      { ident := { id := 1 }, body := .struct { elements := [0, 1] } }] #[]

theorem Document.load_chain : (Document.load .chain).value = Document.chain.update.value ∧
    (Document.load .chain).notes = Document.chain.update.notes := by
  have hzero : Expression.parse? "0" = some (.constant 0) := by decide +kernel
  have hone : Expression.parse? "1" = some (.constant 1) := by decide +kernel
  have hlist {α : Type} : (Link.parse? "id:1" : Option (Link α)) = some { reference := .id 1 } :=
    rfl
  have hmade : Document.ofRecord .chain = { value := .chain, notes := [] } := by
    unfold Document.ofRecord Record.Document.chain
    simp only [Build.addElements, Build.addElement, Build.struct, Build.number, Build.structRef,
      Build.repeats, hzero, hone, hlist]
    rfl
  unfold load
  rw [Noted.value_bind, Noted.notes_bind, hmade]
  exact ⟨rfl, List.nil_append _⟩

namespace Decoder

/-- A decoder of lists in memory. -/
def chain : Decoder Bytes := { document := (Document.load .chain).value, source := .plain }

theorem chain_document : chain.document = Document.chain.update.value := Document.load_chain.1

theorem chain_size : chain.document.elements.size = 4 := by
  rw [chain_document]
  cbv

theorem chain_substantial {c : Cursor Bytes} (k i : Nat)
    (h : chain.document.consumes k i = true) : chain.Substantial c i := by
  have hlt := Document.consumes_lt_size h
  rw [chain_size] at hlt
  have hi : i = 0 ∨ i = 1 ∨ i = 2 ∨ i = 3 := by omega
  clear h
  rcases hi with rfl | rfl | rfl | rfl
  · refine .of_constants (m := 1) ?_ (by decide) (Or.inr ?_) ?_
    all_goals
      rw [chain_document]
      cbv
  all_goals
    refine .of_constants (m := 1) ?_ (by decide) (Or.inl ?_) ?_
    all_goals
      rw [chain_document]
      cbv

/-- Three lists are read, each in the one before it, and none is handed over to another reader. -/
theorem decode_guarded_chain : (Document.load .chain).notes = [] ∧
    ∀ other, ∃ v c', chain.decodeGuarded other { source := #[1, 2, 3] } = .ok v c' ∧
      c'.pos = 24 := by
  have hnotes : (Document.load .chain).notes = [] := by
    rw [Document.load_chain.2]
    cbv
  refine ⟨hnotes, fun other => ?_⟩
  have hnested (i : Nat) (hi : chain.document.Listed i) :
      chain.document.nestedWithin Document.nestingLimit i = true := by
    have hnumbered : chain.document.Numbered := Document.load_numbered .chain
    have hlt := hi.lt_size hnumbered
    rw [chain_size] at hlt
    exact Document.nestedWithin_of_lt hnumbered _ (Nat.lt_trans hlt (by decide))
  have hpos : (Reader.result? chain.decode { source := #[1, 2, 3] }).map (·.2.pos) = some 24 := by
    unfold chain
    rw [Document.load_chain.1]
    cbv
  obtain ⟨⟨v, c'⟩, hresult, hpos⟩ := Option.map_eq_some_iff.mp hpos
  rw [decode_guarded hnotes rfl hnested chain_substantial other]
  exact ⟨v, c', Reader.ok_of_result? hresult, hpos⟩

end Decoder

/-! ## A structure that is empty after all

A file is a structure with a byte in it, and another file. The byte counts as consuming, but the
structure around it has length zero, so that the byte is not read. -/

/-- The grammar as it is written. -/
def Record.Document.hollow : Record.Document where
  grammar :=
    { start := "id:1"
      elements :=
        [.struct { id := 1 } {}
          [.struct {} { length := "0" } [.number {} { length := "1" }],
            .structRef {} { target := "id:1" }]] }

/-- The grammar before it is linked. -/
def Document.hollow : Document :=
  .ofParts "" { start := some { reference := .id 1 }, elements := [3] }
    #[{ body := .number { length := some (.constant 1) } },
      { body := .struct { length := some (.constant 0), elements := [0] } },
      { body := .structRef { target := some { reference := .id 1 } } },
      { ident := { id := 1 }, body := .struct { elements := [1, 2] } }] #[]

theorem Document.load_hollow : (Document.load .hollow).value = Document.hollow.update.value ∧
    (Document.load .hollow).notes = Document.hollow.update.notes := by
  have hzero : Expression.parse? "0" = some (.constant 0) := by decide +kernel
  have hone : Expression.parse? "1" = some (.constant 1) := by decide +kernel
  have hfile {α : Type} : (Link.parse? "id:1" : Option (Link α)) = some { reference := .id 1 } :=
    rfl
  have hmade : Document.ofRecord .hollow = { value := .hollow, notes := [] } := by
    unfold Document.ofRecord Record.Document.hollow
    simp only [Build.addElements, Build.addElement, Build.struct, Build.number, Build.structRef,
      hzero, hone, hfile]
    rfl
  unfold load
  rw [Noted.value_bind, Noted.notes_bind, hmade]
  exact ⟨rfl, List.nil_append _⟩

namespace Decoder

/-- A decoder of files in memory. -/
def hollow : Decoder Bytes := { document := (Document.load .hollow).value, source := .plain }

/-- Nothing is reported, and yet the file is entered again where it began: whatever failure the
other reader gives is the outcome. -/
theorem decode_hollow : (Document.load .hollow).notes = [] ∧
    ¬∀ other, hollow.decodeGuarded other { source := #[1, 2] } =
      hollow.decode { source := #[1, 2] } := by
  have hnotes : (Document.load .hollow).notes = [] := by
    rw [Document.load_hollow.2]
    cbv
  have hcause (cause : Cause) :
      (Reader.failure? (hollow.decodeGuarded fun _ _ => Reader.fail cause)
        { source := #[1, 2] }).map (·.cause) = some cause := by
    unfold hollow
    rw [Document.load_hollow.1]
    cbv
  refine ⟨hnotes, fun hsame => ?_⟩
  -- two readers that fail differently cannot both make no difference
  have hpadding := hcause (.unsupported .padding)
  have hdeep := hcause (.tooDeep depthLimit)
  unfold Reader.failure? at hpadding hdeep
  rw [hsame] at hpadding hdeep
  cases hpadding.symm.trans hdeep

end Decoder

end BinaryGrammar
