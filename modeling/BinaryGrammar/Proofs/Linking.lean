import BinaryGrammar.Proofs.Numbering

/-!
# Documents without problems

When nothing is reported about a document, it is sound: what can be found by a reference is an
element of the grammar, every reference of such an element has been found and has the right kind,
and every element that needs a length has one that its kind can have, as far as lengths are
constants. The phases of loading are followed in their order; what one of them establishes the later
ones keep, as they change no shapes.
-/

set_option autoImplicit false

namespace BinaryGrammar

theorem Noted.notes_bind_eq_nil {α β : Type} {x : Noted α} {f : α → Noted β}
    (h : (x >>= f).notes = []) : x.notes = [] ∧ (f x.value).notes = [] :=
  List.append_eq_nil_iff.mp h

namespace Document

variable {doc doc' : Document} {S : Nat → Prop}

/-! ## Finding elements -/

/-- All elements that can be found have the property `S`. -/
structure FindsIn (doc : Document) (S : Nat → Prop) : Prop where
  id : ∀ {id i : Nat}, doc.ids[id]? = some i → S i
  name : ∀ {name : String} {i : Nat}, doc.names[name]? = some i → S i
  top : ∀ i ∈ doc.grammar.elements, S i

theorem FindsIn.resolve (h : doc.FindsIn S) {reference : Reference} {i : Nat}
    (hi : doc.resolve reference = some i) : S i := by
  cases reference with
  | id n => exact h.id hi
  | name s =>
      change doc.byName s = some i at hi
      unfold byName at hi
      split at hi
      · rename_i j hj
        cases hi
        exact h.top i (List.mem_of_find?_eq_some hj)
      · exact h.name hi

theorem FindsIn.edited (h : doc.FindsIn S) (hedited : Edited doc doc') : doc'.FindsIn S := by
  rw [hedited.rest]
  exact ⟨h.id, h.name, h.top⟩

theorem registerScript_finds (h : doc.FindsIn S) (i : Nat) :
    (doc.registerScript i).value.FindsIn S := by
  unfold registerScript
  dsimp only
  split
  · exact h
  · split
    · exact h
    · exact ⟨h.id, h.name, h.top⟩

theorem registerId_finds (h : doc.FindsIn S) {i : Nat} (hi : S i) :
    (doc.registerId i).value.FindsIn S := by
  unfold registerId
  dsimp only
  split
  · exact h
  · split
    · exact h
    · refine ⟨?_, h.name, h.top⟩
      intro id j hj
      rw [Std.HashMap.getElem?_insert] at hj
      split at hj
      · cases hj
        exact hi
      · exact h.id hj

theorem registerName_finds (h : doc.FindsIn S) {i : Nat} (hi : S i) :
    (doc.registerName i).FindsIn S := by
  unfold registerName
  dsimp only
  split
  · exact h
  · refine ⟨h.id, ?_, h.top⟩
    intro name j hj
    rw [Std.HashMap.getElem?_insertIfNew] at hj
    split at hj
    · cases hj
      exact hi
    · exact h.name hj

theorem registerInlineScript_finds (h : doc.FindsIn S) (i : Nat) :
    (doc.registerInlineScript i).value.FindsIn S := by
  unfold registerInlineScript
  split
  · exact registerScript_finds h _
  · exact h

theorem registerElement_finds (h : doc.FindsIn S) (entry : Nat × Option Nat) (hi : S entry.1) :
    (doc.registerElement entry).value.FindsIn S := by
  obtain ⟨i, parent⟩ := entry
  have hparent : (doc.modify i fun e => { e with parent }).FindsIn S := h.edited (.modify rfl)
  unfold registerElement
  rw [Noted.value_bind]
  exact registerInlineScript_finds (registerName_finds (registerId_finds hparent hi) hi) i

/-- What every registration of an entry keeps is kept by all of them. -/
theorem registerAll_invariant {α : Type} {P : Document → Prop} {f : Document → α → Noted Document} :
    ∀ (xs : List α) {doc : Document}, (∀ doc, ∀ x ∈ xs, P doc → P (f doc x).value) → P doc →
    P (registerAll f doc xs).value
  | [], _, _, h => h
  | x :: xs, doc, hf, h =>
      registerAll_invariant xs (fun doc y hy => hf doc y (List.mem_cons_of_mem _ hy))
        (hf doc x List.mem_cons_self h)

/-- **After registration only elements of the grammar can be found.** -/
theorem register_finds (doc : Document) : doc.register.value.FindsIn doc.Listed := by
  have hcleared : FindsIn { doc with ids := {}, names := {}, scriptNames := {} } doc.Listed :=
    ⟨fun h => by simp at h, fun h => by simp at h, fun i hi => .of_top hi⟩
  have hscripts := registerAll_invariant (P := (FindsIn · doc.Listed)) doc.grammar.scripts
    (fun doc i _ h => registerScript_finds h i) hcleared
  have hsame : SameShape doc { doc with ids := {}, names := {}, scriptNames := {} } :=
    ⟨rfl, rfl, rfl, fun _ => rfl⟩
  have hshape := hsame.trans (registerAll_shape registerScript_shape doc.grammar.scripts _)
  unfold register
  rw [Noted.value_bind]
  refine registerAll_invariant (P := (FindsIn · doc.Listed)) _ ?_ hscripts
  intro doc' entry hentry h
  refine registerElement_finds h entry ((Listed.congr hshape entry.1).mp ?_)
  exact List.mem_map.mpr ⟨entry, hentry, rfl⟩

/-! ## Links -/

/-- The references of a body have been found, and are what they have to be. -/
def Linked (doc : Document) (S : Nat → Prop) : Body → Prop
  | .structRef r =>
    ∃ t, r.target.bind (·.target) = some t ∧ S t ∧ (doc.element t).kind = .struct
  | .grammarRef g => (g.grammar.bind (·.target)).isSome
  | .custom c => (c.script.bind (·.target)).isSome
  | _ => True

theorem Linked.edited {body : Body} (h : doc.Linked S body) (hedited : Edited doc doc') :
    doc'.Linked S body := by
  cases body with
  | structRef r =>
      obtain ⟨t, ht, hS, hkind⟩ := h
      exact ⟨t, ht, hS, (hedited.kind t).trans hkind⟩
  | _ => exact h

/-- A target of the right kind that has been found without problems. -/
theorem resolveKind_found (hfinds : doc.FindsIn S) {owner : Label} {attr : String}
    {reference : Reference} {kind : Kind}
    (h : (doc.resolveKind owner attr reference (some kind)).notes = []) :
    ∃ t, (doc.resolveKind owner attr reference (some kind)).value = some t ∧ S t ∧
      (doc.element t).kind = kind := by
  unfold resolveKind at h ⊢
  cases hresolve : doc.resolve reference with
  | none =>
      simp only [hresolve] at h
      cases h
  | some t =>
      simp only [hresolve] at h ⊢
      by_cases hkind : (doc.element t).kind = kind
      · rw [if_pos hkind]
        exact ⟨t, rfl, hfinds.resolve hresolve, hkind⟩
      · rw [if_neg hkind] at h
        cases h

theorem resolveStructRef_linked (hfinds : doc.FindsIn S) {owner : Label} {r : StructRefBody}
    (h : (doc.resolveStructRef owner r).notes = []) :
    doc.Linked S (.structRef (doc.resolveStructRef owner r).value) := by
  unfold resolveStructRef at h ⊢
  cases htarget : r.target with
  | none =>
      simp only [htarget] at h
      cases h
  | some link =>
      simp only [htarget] at h ⊢
      obtain ⟨h, _⟩ := Noted.notes_bind_eq_nil h
      obtain ⟨h, _⟩ := Noted.notes_bind_eq_nil h
      obtain ⟨t, ht, hS, hkind⟩ := resolveKind_found hfinds h
      exact ⟨t, ht, hS, hkind⟩

theorem resolveGrammarRef_linked {owner : Label} {g : GrammarRefBody}
    (h : (doc.resolveGrammarRef owner g).notes = []) :
    doc.Linked S (.grammarRef (doc.resolveGrammarRef owner g).value) := by
  unfold resolveGrammarRef at h ⊢
  cases hmeans : doc.meansOwnGrammar g with
  | none =>
      simp only [hmeans] at h
      cases h
  | some own =>
      cases own with
      | true => rfl
      | false =>
          simp only [hmeans] at h
          cases h

/-- Scripts are found by their names only. -/
theorem resolveCustom_linked {owner : Label} {c : CustomBody}
    (h : (doc.resolveCustom owner c).notes = []) :
    doc.Linked S (.custom (doc.resolveCustom owner c).value) := by
  unfold resolveCustom at h ⊢
  cases hscript : c.script with
  | none =>
      simp only [hscript] at h
      cases h
  | some link =>
      simp only [hscript] at h ⊢
      cases hreference : link.reference with
      | id n =>
          simp only [hreference] at h
          cases h
      | name s =>
          simp only [hreference] at h ⊢
          cases hfound : doc.scriptByName s with
          | none =>
              simp only [hfound] at h
              cases h
          | some t => rfl

/-- A body whose links have been resolved without problems is linked. -/
theorem resolveBody_linked (hfinds : doc.FindsIn S) {owner : Label} {body : Body}
    (h : (doc.resolveBody owner body).notes = []) :
    doc.Linked S (doc.resolveBody owner body).value := by
  cases body with
  | structRef r => exact resolveStructRef_linked hfinds (Noted.notes_bind_eq_nil h).1
  | grammarRef g => exact resolveGrammarRef_linked (Noted.notes_bind_eq_nil h).1
  | custom c => exact resolveCustom_linked (Noted.notes_bind_eq_nil h).1
  | _ => trivial

/-- **Elements whose links have been resolved without problems are linked.** -/
theorem resolveAll_linked : ∀ (is : List Nat) {doc : Document}, doc.FindsIn S →
    (∀ i ∈ is, i < doc.elements.size) → (resolveAll doc is).notes = [] → ∀ i,
    i ∈ is ∨ doc.Linked S (doc.element i).body →
    (resolveAll doc is).value.Linked S ((resolveAll doc is).value.element i).body
  | [], doc, _, _, _, i, hi => by
      rcases hi with hi | hi
      · cases hi
      · exact hi
  | j :: is, doc, hfinds, hsize, h, i, hi => by
      obtain ⟨hbody, hrest⟩ := Noted.notes_bind_eq_nil h
      have hedited : Edited doc (doc.modify j fun e =>
          { e with body := (doc.resolveBody (doc.element j).label (doc.element j).body).value }) :=
        .modify (resolveBody_shape doc (doc.element j))
      refine resolveAll_linked is (hfinds.edited hedited)
        (fun i hi => by rw [hedited.size]; exact hsize i (List.mem_cons_of_mem _ hi)) hrest i ?_
      -- an element that is linked already may be linked again, and is so without problems
      by_cases hij : j = i
      · subst hij
        right
        rw [element_modify, if_pos ⟨rfl, hsize j List.mem_cons_self⟩]
        exact (resolveBody_linked hfinds hbody).edited hedited
      · rcases hi with hi | hi
        · exact Or.inl ((List.mem_cons.mp hi).resolve_left fun h => hij h.symm)
        · right
          rw [element_modify, if_neg fun h => hij h.1]
          exact hi.edited hedited

theorem resolveStart_found (hfinds : doc.FindsIn S) (h : doc.resolveStart.notes = []) :
    ∃ s, doc.resolveStart.value.start = some s ∧ S s ∧ (doc.element s).kind = .struct := by
  unfold resolveStart at h ⊢
  cases hstart : doc.grammar.start with
  | none =>
      simp only [hstart] at h
      cases h
  | some link =>
      simp only [hstart] at h ⊢
      obtain ⟨h, _⟩ := Noted.notes_bind_eq_nil h
      obtain ⟨t, ht, hS, hkind⟩ := resolveKind_found hfinds h
      exact ⟨t, ht, hS, hkind⟩

theorem resolveStart_elements (doc : Document) :
    ∃ grammar, doc.resolveStart.value = { doc with grammar } := by
  unfold resolveStart
  split
  · exact ⟨doc.grammar, rfl⟩
  · exact ⟨_, rfl⟩

/-! ## Lengths -/

/-- The length of an element in bits has a property if it is constant, and is not negative. -/
def ConstantFits (doc : Document) (i : Nat) (p : Int → Prop) : Prop :=
  ∀ k, doc.length i = some (.constant k) → 0 ≤ k ∧ p (k * (doc.lengthUnit i).bits)

/-- An element that needs a length has one, and if that is constant its kind can have it. -/
def LengthFits (doc : Document) (i : Nat) : Prop :=
  match (doc.element i).body with
  | .number _ =>
    (doc.length i).isSome ∧ doc.ConstantFits i fun bits =>
      match doc.numberType i with
      | .integer => 1 ≤ bits ∧ bits ≤ 64
      | .float => bits = 32 ∨ bits = 64
  | .offset _ => (doc.length i).isSome ∧ doc.ConstantFits i fun bits => 1 ≤ bits ∧ bits ≤ 64
  | .string _ =>
    match doc.stringType i with
    | .fixedLength => (doc.length i).isSome ∧ doc.ConstantFits i fun _ => True
    | .pascal =>
      (doc.length i).isSome ∧ doc.ConstantFits i fun bits => bits % 8 = 0 ∧ 8 ≤ bits ∧ bits ≤ 64
    | _ => doc.ConstantFits i fun _ => True
  | .binary _ => (doc.length i).isSome ∧ doc.ConstantFits i fun _ => True
  | .custom _ => doc.ConstantFits i fun _ => True
  | .struct _ => doc.ConstantFits i fun _ => True
  | _ => True

/-- A length that is no constant has any property that a constant one should have. -/
theorem ConstantFits.of_formula {i : Nat} {p : Int → Prop} {text : String}
    (h : doc.length i = some (.formula text)) : doc.ConstantFits i p := by
  intro k hk
  rw [h] at hk
  cases hk

theorem ConstantFits.of_none {i : Nat} {p : Int → Prop} (h : doc.length i = none) :
    doc.ConstantFits i p := by
  intro k hk
  rw [h] at hk
  cases hk

theorem ConstantFits.of_constant {i : Nat} {p : Int → Prop} {n : Int}
    (h : doc.length i = some (.constant n)) (hn : 0 ≤ n)
    (hp : p (n * (doc.lengthUnit i).bits)) : doc.ConstantFits i p := by
  intro k hk
  rw [h] at hk
  cases hk
  exact ⟨hn, hp⟩

theorem constantBits_eq {i : Nat} {n b : Int} (h : doc.constantBits i n = b) (hb : b ≤ 64) :
    n * (doc.lengthUnit i).bits = b := by
  unfold constantBits Word.greatest at h
  omega

theorem within_iff {low high bits : Int} :
    within low high bits = true ↔ low ≤ bits ∧ bits ≤ high := by
  unfold within
  rw [Bool.and_eq_true, decide_eq_true_iff, decide_eq_true_iff]

/-- Constant bits saturate, but not in a range of at most 64. -/
theorem within_constantBits {i : Nat} {n low high : Int} (hhigh : high ≤ 64)
    (h : within low high (doc.constantBits i n) = true) :
    low ≤ n * (doc.lengthUnit i).bits ∧ n * (doc.lengthUnit i).bits ≤ high := by
  have hbits := within_iff.mp h
  rw [constantBits_eq rfl (Int.le_trans hbits.2 hhigh)]
  exact hbits

/-- An element about whose missing length nothing is reported does not need one. -/
theorem LengthFits.of_none {i : Nat} (hlength : doc.length i = none)
    (h : doc.validateLength i = []) : doc.LengthFits i := by
  unfold validateLength at h
  unfold LengthFits
  cases hbody : (doc.element i).body with
  | string b =>
      simp only [hlength, hbody, validateString, Option.bind_none] at h ⊢
      cases htype : doc.stringType i with
      | fixedLength => simp only [htype] at h; cases h
      | pascal => simp only [htype] at h; cases h
      | zeroTerminated => exact .of_none hlength
      | delimiterTerminated => exact .of_none hlength
  | custom b => exact .of_none hlength
  | struct b => exact .of_none hlength
  | number b => simp only [hlength, hbody, Option.bind_none] at h; cases h
  | binary b => simp only [hlength, hbody, Option.bind_none] at h; cases h
  | offset b => simp only [hlength, hbody, Option.bind_none] at h; cases h
  | _ => trivial

/-- A formula for a length is taken as it is. -/
theorem LengthFits.of_formula {i : Nat} {text : String}
    (hlength : doc.length i = some (.formula text)) : doc.LengthFits i := by
  have hsome : (doc.length i).isSome := by rw [hlength]; rfl
  unfold LengthFits
  cases hbody : (doc.element i).body with
  | string b =>
      cases htype : doc.stringType i with
      | fixedLength => exact ⟨hsome, .of_formula hlength⟩
      | pascal => exact ⟨hsome, .of_formula hlength⟩
      | zeroTerminated => exact .of_formula hlength
      | delimiterTerminated => exact .of_formula hlength
  | custom b => exact .of_formula hlength
  | struct b => exact .of_formula hlength
  | number b => exact ⟨hsome, .of_formula hlength⟩
  | binary b => exact ⟨hsome, .of_formula hlength⟩
  | offset b => exact ⟨hsome, .of_formula hlength⟩
  | _ => trivial

/-- A constant length about which nothing is reported fits the kind. -/
theorem LengthFits.of_constant {i : Nat} {n : Int} (hlength : doc.length i = some (.constant n))
    (h : doc.validateLength i = []) : doc.LengthFits i := by
  have hsome : (doc.length i).isSome := by rw [hlength]; rfl
  unfold validateLength at h
  simp only [hlength, Option.bind_some, Expression.constant?] at h
  split at h
  · cases h
  · rename_i hn
    have hn : 0 ≤ n := by omega
    unfold LengthFits
    cases hbody : (doc.element i).body with
    | number b =>
        simp only [hbody, validateNumber] at h ⊢
        refine ⟨hsome, .of_constant hlength hn ?_⟩
        cases htype : doc.numberType i with
        | integer =>
            simp only [htype] at h ⊢
            split at h
            · rename_i hbits
              exact within_constantBits (by decide) hbits
            · cases h
        | float =>
            simp only [htype] at h ⊢
            split at h
            · rename_i hbits
              rw [constantBits_eq rfl (by omega)]
              exact hbits
            · cases h
    | string b =>
        simp only [hbody, validateString] at h ⊢
        cases htype : doc.stringType i with
        | fixedLength => exact ⟨hsome, .of_constant hlength hn trivial⟩
        | pascal =>
            simp only [htype] at h ⊢
            split at h
            · rename_i hbits
              have hrange := within_constantBits (by decide) hbits.2
              refine ⟨hsome, .of_constant hlength hn ⟨?_, hrange⟩⟩
              rw [constantBits_eq rfl (within_iff.mp hbits.2).2]
              exact hbits.1
            · cases h
        | zeroTerminated => exact .of_constant hlength hn trivial
        | delimiterTerminated => exact .of_constant hlength hn trivial
    | binary b => exact ⟨hsome, .of_constant hlength hn trivial⟩
    | offset b =>
        simp only [hbody] at h ⊢
        split at h
        · rename_i hbits
          exact ⟨hsome, .of_constant hlength hn (within_constantBits (by decide) hbits)⟩
        · cases h
    | custom b => exact .of_constant hlength hn trivial
    | struct b => exact .of_constant hlength hn trivial
    | _ => trivial

theorem validate_fits {i : Nat} (h : doc.validate i = []) : doc.LengthFits i := by
  obtain ⟨_, h⟩ := List.append_eq_nil_iff.mp h
  cases hlength : doc.length i with
  | none => exact .of_none hlength h
  | some e =>
      cases e with
      | constant n => exact .of_constant hlength h
      | formula text => exact .of_formula hlength

/-! ## Where decoding starts has no part in lengths -/

theorem walk_withGrammar {α : Type} (doc : Document) (grammar : Grammar) (viaParent : Bool)
    (own : Element → Option α) : ∀ limit i,
    walk { doc with grammar } viaParent own limit i = doc.walk viaParent own limit i
  | 0, _ => rfl
  | limit + 1, i => by
      unfold walk
      simp only [walk_withGrammar doc grammar viaParent own limit]
      rfl

theorem LengthFits.withGrammar {i : Nat} (h : doc.LengthFits i) (grammar : Grammar) :
    LengthFits { doc with grammar } i := by
  have helement : element { doc with grammar } i = doc.element i := rfl
  have hunit : lengthUnit { doc with grammar } i = doc.lengthUnit i := by
    simp only [lengthUnit, inherited, walk_withGrammar]
  have hnumber : numberType { doc with grammar } i = doc.numberType i := by
    simp only [numberType, derived, walk_withGrammar]
  have hstring : stringType { doc with grammar } i = doc.stringType i := by
    simp only [stringType, derived, walk_withGrammar]
  -- only a reference to a grammar has the length of the structure where decoding starts
  have hlength : (∀ g, (doc.element i).body ≠ .grammarRef g) →
      length { doc with grammar } i = doc.length i := by
    intro hbody
    unfold length
    rw [helement]
    split
    · simp only [derived, walk_withGrammar]
    · rename_i g hg
      exact absurd hg (hbody g)
    · simp only [derived, walk_withGrammar]
  unfold LengthFits ConstantFits at h ⊢
  rw [helement]
  cases hbody : (doc.element i).body with
  | grammarRef g => trivial
  | structRef r => trivial
  | script s => trivial
  | padding => trivial
  | _ =>
      have hlength := hlength (by rw [hbody]; exact nofun)
      simpa only [hbody, hunit, hnumber, hstring, hlength] using h

/-! ## Soundness -/

/-- A document in which the elements `S` can be decoded: it says where to start, and everything that
its elements refer to or have inside is among them; none of them is padding, all references have
been found, and all lengths that are constants fit. -/
structure Sound (doc : Document) (S : Nat → Prop) : Prop where
  start : ∃ s, doc.start = some s ∧ S s ∧ (doc.element s).kind = .struct
  inside : ∀ {i c : Nat}, S i → c ∈ (doc.element i).children → S c
  kind : ∀ {i : Nat}, S i → (doc.element i).kind ≠ .padding
  linked : ∀ {i : Nat}, S i → doc.Linked S (doc.element i).body
  fits : ∀ {i : Nat}, S i → doc.LengthFits i

/-- Linking and checking a document without problems makes it sound. -/
theorem update_sound (hdoc : doc.Numbered) (h : doc.update.notes = []) :
    doc.update.value.Sound doc.Listed := by
  have hshape := update_shape doc
  unfold update at h hshape ⊢
  obtain ⟨_, h⟩ := Noted.notes_bind_eq_nil h
  obtain ⟨_, h⟩ := Noted.notes_bind_eq_nil h
  obtain ⟨hresolved, h⟩ := Noted.notes_bind_eq_nil h
  obtain ⟨hvalid, h⟩ := Noted.notes_bind_eq_nil h
  obtain ⟨hstarted, _⟩ := Noted.notes_bind_eq_nil h
  simp only [Noted.value_bind] at hshape ⊢
  -- the documents of the phases, and the order of the elements, which all of them share
  generalize hregister : doc.register.value = registered at *
  generalize horder : registered.preorder.map (·.1) = order at *
  generalize hderive : (registered.derive order).value = derived at *
  generalize hresolve : (resolveAll derived order).value = resolved at *
  have hregistered : SameShape doc registered := hregister ▸ register_shape doc
  have hderived : Edited registered derived := hderive ▸ derive_edited registered order
  have hlisted : ∀ i, i ∈ order ↔ doc.Listed i := by
    intro i
    rw [← horder]
    exact Listed.congr hregistered i
  have hsize : ∀ i ∈ order, i < derived.elements.size := by
    intro i hi
    rw [hderived.size, hregistered.size]
    exact ((hlisted i).mp hi).lt_size hdoc
  have hfinds : derived.FindsIn doc.Listed :=
    FindsIn.edited (hregister ▸ register_finds doc) hderived
  have hresolve' : Edited derived resolved := hresolve ▸ resolveAll_edited order derived
  obtain ⟨s, hs, hlisteds, hkind⟩ := resolveStart_found (hfinds.edited hresolve') hstarted
  obtain ⟨grammar, hfinal⟩ := resolveStart_elements resolved
  have hfinalNumbered : resolved.resolveStart.value.Numbered := hdoc.sameShape hshape
  have hfinalListed : ∀ i, resolved.resolveStart.value.Listed i ↔ doc.Listed i :=
    Listed.congr hshape
  refine ⟨⟨s, hs, hlisteds, ?_⟩, ?_, ?_, ?_, ?_⟩
  · rw [hfinal]
    exact hkind
  · intro i c hi hc
    exact (hfinalListed c).mp (((hfinalListed i).mpr hi).child hfinalNumbered hc)
  · intro i hi
    exact ((hfinalListed i).mpr hi).kind_ne_padding hfinalNumbered
  · intro i hi
    have hlinked := resolveAll_linked order hfinds hsize hresolved i (Or.inl ((hlisted i).mpr hi))
    rw [hresolve] at hlinked
    rw [hfinal]
    exact hlinked
  · intro i hi
    have hnone : resolved.validate i = [] :=
      List.flatMap_eq_nil_iff.mp hvalid i ((hlisted i).mpr hi)
    rw [hfinal]
    exact (validate_fits hnone).withGrammar grammar

/-- **A document about which nothing is reported is sound.** -/
theorem load_sound {r : Record.Document} (h : (load r).notes = []) :
    ∃ S, (load r).value.Sound S := by
  unfold load at h ⊢
  rw [Noted.value_bind]
  obtain ⟨_, h⟩ := Noted.notes_bind_eq_nil h
  exact ⟨_, update_sound (ofRecord_numbered r) h⟩

end Document

end BinaryGrammar
