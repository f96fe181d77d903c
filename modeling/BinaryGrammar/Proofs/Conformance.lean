import BinaryGrammar.Proofs.Tiling

/-!
# Trees follow the grammar

The fields of a structure are the runs of its elements, in the order of the grammar, and padding at
the end. A run never has more values than the repeat bound of its element allows. It has fewer than
it should for two reasons only: its last value covered nothing, or the enclosing structure of fixed
length was exhausted, and then no more fields follow.

The bounds of an element are formulas over the fields before, so the runs are looked at turn by
turn, each in the surroundings that the earlier ones make up.
-/

set_option autoImplicit false

namespace BinaryGrammar

variable {σ : Type}

/-- The values of some turns, in order. -/
def Turn.allValues (ts : List (Turn σ)) : List Value := ts.flatMap Turn.values

/-- Instances were read one after another, between two bit positions. -/
def Chained : Nat → List (Instance σ) → Nat → Prop
  | start, [], stop => start = stop
  | start, x :: xs, stop => x.before.pos = start ∧ Chained x.after.pos xs stop

namespace Decoder

/-- What is said of the turn of one element of a structure, which comes after some turns and before
others. -/
structure TurnConforms (d : Decoder σ) (levels : Nat) (outer : Context) (i start : Nat)
    (earlier : List (Turn σ)) (t : Turn σ) (later : List (Turn σ)) : Prop where
  /-- When its turn comes, the element sees the values of earlier turns. -/
  before : t.before.context outer = outer.enter (.ofValues d.document (Turn.allValues earlier))
    (d.extentAfter outer i start (Turn.allValues earlier))
  /-- After the turn its own values can be seen, too. -/
  after : t.after.context outer =
    outer.enter (.ofValues d.document (Turn.allValues (earlier ++ [t])))
      (d.extentAfter outer i start (Turn.allValues (earlier ++ [t])))
  /-- The run has values of the element only, as they were read, -/
  read : ∀ x ∈ t.instances, d.readElement levels x.context t.element x.before = .ok x.value x.after
  element : ∀ x ∈ t.instances, x.value.element = t.element
  /-- in the order in which they were read, -/
  chained : Chained t.before.cursor.pos t.instances t.after.cursor.pos
  /-- each between the positions that it tells. -/
  spans : ∀ x ∈ t.instances, x.value.Spans x.before.pos x.after.pos
  /-- Both bounds have values, unless there is nothing left to read. -/
  bounds : t.before.exhausted outer = false →
    (∃ least, d.evaluate (t.before.context outer) (d.document.repeatMin t.element) = .ok least) ∧
    ∃ most, d.evaluate (t.before.context outer) (d.document.repeatMax t.element) = .ok most
  /-- There are no more values than are allowed. -/
  most : ∀ most, d.evaluate (t.before.context outer) (d.document.repeatMax t.element) = .ok most →
    0 ≤ most → t.instances.length ≤ most
  /-- All but the last have moved the cursor forward. -/
  moving : ∀ x ∈ t.instances.dropLast, x.before.pos < x.after.pos
  /-- If there are fewer values than required, and more would have been allowed, then the last one
  covers nothing, or there is nothing left to read in this turn and in all later ones. -/
  least : ∀ least most,
    d.evaluate (t.before.context outer) (d.document.repeatMin t.element) = .ok least →
    d.evaluate (t.before.context outer) (d.document.repeatMax t.element) = .ok most →
    Word.IsSigned least → t.instances.length < max least 0 →
    (most < 0 ∨ t.instances.length < most) →
    (∃ x, t.instances.getLast? = some x ∧ x.after.pos = x.before.pos) ∨
      (t.after.exhausted outer = true ∧ ∀ t' ∈ later, t'.instances = [])

/-- What is said of turns that come after some others and begin at a bit position. -/
def TurnsConform (d : Decoder σ) (levels : Nat) (outer : Context) (i start : Nat) :
    List (Turn σ) → Nat → List (Turn σ) → Prop
  | _, _, [] => True
  | earlier, pos, t :: later =>
    t.before.cursor.pos = pos ∧ TurnConforms d levels outer i start earlier t later ∧
      TurnsConform d levels outer i start (earlier ++ [t]) t.after.cursor.pos later

variable {d : Decoder σ} {levels : Nat} {outer : Context} {i start : Nat} {p p' : Progress σ}

/-! ## One run -/

namespace Repeated

variable {read : ElementReader σ} {child : Nat} {xs : List (Instance σ)}

theorem values (h : Repeated d read outer i start child p xs p') :
    p'.frame.values.toList = p.frame.values.toList ++ xs.map (·.value) := by
  induction h with
  | stop => simp
  | failed => simp
  | next _ _ hsettle _ ih =>
      rw [ih, hsettle.frame, Progress.values_push, List.append_assoc]
      rfl

theorem tracked (h : Repeated d read outer i start child p xs p')
    (hp : Tracked d outer i start p) : Tracked d outer i start p' :=
  h.invariant (fun hp _ _ hsettle => hp.push hsettle) (fun hp _ => hp.moved) hp

theorem chained (h : Repeated d read outer i start child p xs p') :
    Chained p.cursor.pos xs p'.cursor.pos := by
  induction h with
  | stop => rfl
  | failed => rfl
  | next _ _ hsettle _ ih =>
      rw [hsettle.cursor] at ih
      exact ⟨rfl, ih⟩

theorem reads (h : Repeated d read outer i start child p xs p') :
    ∀ x ∈ xs, read x.context child x.before = .ok x.value x.after := by
  induction h with
  | stop => intro x hx; cases hx
  | failed => intro x hx; cases hx
  | next _ hread _ _ ih =>
      intro x hx
      rcases List.mem_cons.mp hx with hx | hx
      · rw [hx]
        exact hread
      · exact ih x hx

end Repeated

/-- Why a run can be too short. -/
theorem Ended.short {least most : Int} {xs : List (Instance σ)}
    (h : Ended outer least (allowedInstances most) 0 xs p) (hsigned : Word.IsSigned least)
    (hshort : (xs.length : Int) < max least 0) (hroom : most < 0 ∨ (xs.length : Int) < most) :
    (∃ x, xs.getLast? = some x ∧ x.after.pos = x.before.pos) ∨ p.exhausted outer = true := by
  rcases h with hall | hexhausted | hlast | henough
  · -- not even a bound below zero, which allows more instances than can be required, is reached
    exfalso
    unfold allowedInstances at hall
    obtain ⟨_, hgreatest⟩ := hsigned
    unfold Word.greatest Word.modulus at *
    split at hall <;> omega
  · exact Or.inr hexhausted
  · exact Or.inl hlast
  · omega

theorem length_le_most {most : Int} {xs : List (Instance σ)}
    (h : xs.length ≤ allowedInstances most) (hmost : 0 ≤ most) : (xs.length : Int) ≤ most := by
  unfold allowedInstances at h
  rw [if_neg (by omega)] at h
  omega

/-! ## All runs -/

/-- After the structure is exhausted, no instance is read. -/
theorem Turns.empty_of_exhausted {read : ElementReader σ} {ts : List (Turn σ)}
    (h : Turns d read outer i start p ts p') :
    p.exhausted outer = true → ∀ t ∈ ts, t.instances = [] := by
  induction h with
  | nil => intro _ t ht; cases ht
  | passed _ _ ih =>
      intro hexhausted t ht
      rcases List.mem_cons.mp ht with ht | ht
      · rw [ht]
      · exact ih hexhausted t ht
  | taken hroom => intro hexhausted; rw [hexhausted] at hroom; cases hroom

theorem Turns.values {read : ElementReader σ} {ts : List (Turn σ)}
    (h : Turns d read outer i start p ts p') :
    p'.frame.values.toList = p.frame.values.toList ++ Turn.allValues ts := by
  induction h with
  | nil => simp [Turn.allValues]
  | passed _ _ ih => exact ih
  | taken _ _ _ hrep _ _ _ _ ih =>
      rw [ih, hrep.values, List.append_assoc]
      rfl

theorem Tracked.context (hp : Tracked d outer i start p) {vs : List Value}
    (hvs : p.frame.values.toList = vs) :
    p.context outer = outer.enter (.ofValues d.document vs) (d.extentAfter outer i start vs) := by
  rw [Progress.context_eq, ← hvs, ← hp.frame, ← hp.extent]

/-- **Every turn keeps to the grammar.** -/
theorem Turns.conform {ts : List (Turn σ)}
    (h : Turns d (d.readElement levels) outer i start p ts p') :
    ∀ {earlier : List (Turn σ)}, Tracked d outer i start p →
      p.frame.values.toList = Turn.allValues earlier →
      TurnsConform d levels outer i start earlier p.cursor.pos ts := by
  induction h with
  | nil => exact fun _ _ => trivial
  | @passed p p' child ts hexhausted hts ih =>
      intro earlier hp hvalues
      have hafter : p.frame.values.toList =
          Turn.allValues (earlier ++ [⟨child, p, [], p⟩]) := by
        rw [hvalues]
        simp [Turn.allValues, Turn.values]
      -- nothing is read in a turn that is passed over, so most is said of no instances
      refine ⟨rfl, ?_, ih hp hafter⟩
      exact
        { before := hp.context hvalues
          after := hp.context hafter
          read := fun x hx => by cases hx
          element := fun x hx => by cases hx
          chained := rfl
          spans := fun x hx => by cases hx
          bounds := fun hroom => by rw [hexhausted] at hroom; cases hroom
          most := fun most _ hmost => hmost
          moving := fun x hx => by cases hx
          least := fun _ _ _ _ _ _ _ => Or.inr ⟨hexhausted, hts.empty_of_exhausted hexhausted⟩ }
  | @taken p p₁ p' child least most xs ts hroom hleast hmost hrep hlen hmoving hended hts ih =>
      intro earlier hp hvalues
      have hp₁ := hrep.tracked hp
      have hafter : p₁.frame.values.toList =
          Turn.allValues (earlier ++ [⟨child, p, xs, p₁⟩]) := by
        rw [hrep.values, hvalues]
        simp [Turn.allValues, Turn.values]
      have hreads := hrep.reads
      have hspans : ∀ x ∈ xs, x.value.Spans x.before.pos x.after.pos :=
        fun x hx => readElement_spans levels (hreads x hx)
      refine ⟨rfl, ?_, ih hp₁ hafter⟩
      exact
        { before := hp.context hvalues
          after := hp₁.context hafter
          read := hreads
          element := fun x hx => readElement_element (hreads x hx)
          chained := hrep.chained
          spans := hspans
          bounds := fun _ => ⟨⟨least, hleast⟩, most, hmost⟩
          most := by
            intro most' hmost' hnonneg
            cases hmost.symm.trans hmost'
            exact length_le_most hlen hnonneg
          moving := by
            intro x hx
            have hle := (hspans x (List.dropLast_subset _ hx)).le
            exact Nat.lt_of_le_of_ne hle (Ne.symm (hmoving x hx))
          least := by
            -- the bounds have one value each in the surroundings before the turn
            intro least' most' hleast' hmost' hsigned hshort hallowed
            cases hleast.symm.trans hleast'
            cases hmost.symm.trans hmost'
            rcases hended.short hsigned hshort hallowed with hlast | hexhausted
            · exact Or.inl hlast
            · exact Or.inr ⟨hexhausted, hts.empty_of_exhausted hexhausted⟩ }

/-! ## Every structure of a tree -/

/-- A value of a structure, which stands in the given surroundings, is made up of the runs of the
elements and at most one padding value. -/
structure NodeConforms (d : Decoder σ) (levels : Nat) (ctx : Context) (i : Nat)
    (elements : List Nat) (w : Value) (turns : List (Turn σ)) (padding : List Value) : Prop where
  elements : turns.map (·.element) = elements
  children : w.children = Turn.allValues turns ++ padding
  single : padding.length ≤ 1
  padding : ∀ u ∈ padding, IsPadding d.document u
  turns : TurnsConform d levels ctx i (8 * w.offset) [] (8 * w.offset) turns

theorem StructureRead.conforms {label : Nat} {children : List Nat} {p₀ p₁ p₂ : Progress σ}
    {ts : List (Turn σ)} {padding : List Value} {c c' : Cursor σ} {v : Value}
    (h : StructureRead d (d.readElement levels) outer label i children c v c' p₀ p₁ p₂ ts padding) :
    NodeConforms d levels outer i children v ts padding where
  elements := h.elements
  children := by
    have hvalues := h.turns.values
    rw [h.opened.frame] at hvalues
    rw [h.children_eq, h.closed.frame, hvalues]
    rfl
  single := by
    rcases h.ending with ⟨stop, c₁, u, _, _, hpad, _⟩ | ⟨_, _, hpad, _⟩
    · rw [hpad]
      unfold paddingBetween
      dsimp only
      split
      · exact Nat.le_refl 1
      · exact Nat.zero_le 1
    · rw [hpad]
      exact Nat.zero_le 1
  padding := fun u hu => h.isPadding hu
  turns := by
    have hfirst : p₀.cursor = c := h.opened.cursor
    have hvalues : p₀.frame.values.toList = Turn.allValues ([] : List (Turn σ)) := by
      rw [h.opened.frame]
      rfl
    have hconform := h.turns.conform (.opened h.opened) hvalues
    rw [h.start, ← hfirst]
    rw [← hfirst] at hconform
    exact hconform

/-- **Decoded trees follow the grammar.** In a tree that a step of a session gives, the fields of
every structure that was entered are the runs of its elements in order, and padding. Each run has at
most as many values as its element allows, and it has fewer than required only if its last value
covers nothing or if the enclosing structure of fixed length is exhausted, and then the later runs
are empty. -/
theorem step_conforms {s : Step} {c c' : Cursor σ} {v w : Value} {ctx : Context} {body : StructBody}
    (hdoc : d.document.Made) (h : d.step s c = .ok (some v) c') (hw : Occurs d {} v ctx w)
    (hs : d.document.structureOf? w.element = some (i, body)) :
    ∃ levels turns padding, NodeConforms d levels ctx i body.elements w turns padding := by
  obtain ⟨j, hread⟩ := step_some h
  obtain ⟨levels, c₁, c₂, p₀, p₁, p₂, turns, padding, _, _, hstructure⟩ :=
    occurs_structureRead (maintains_true d) hdoc.reserved trivial hread hw hs
  exact ⟨levels, turns, padding, hstructure.conforms⟩

/-- In the box of three bytes the inner box and the disabled reference have a run of one value
each. -/
theorem step_conforms_boxes : ∃ v c body levels turns padding,
    boxes.step .decode { source := #[1, 2, 3] } = .ok (some v) c ∧
    Document.boxes.structureOf? v.element = some (2, body) ∧ body.elements = [0, 1] ∧
    NodeConforms boxes levels {} 2 body.elements v turns padding ∧ v.children.length = 3 := by
  have h : boxes.step .decode { source := #[1, 2, 3] } =
      .ok (some _) { pos := 24, source := #[1, 2, 3] } := rfl
  obtain ⟨levels, turns, padding, hconforms⟩ :=
    step_conforms (d := boxes) (s := .decode) (i := 2) (.ofParts ..) h .root rfl
  exact ⟨_, _, _, levels, turns, padding, h, rfl, rfl, hconforms, rfl⟩

end Decoder

end BinaryGrammar
