import BinaryGrammar.Proofs.Field

/-!
# How a structure is read

The reader of a structure is opened once, here. A successful run settles the end of the structure if
it can, gives every element its turn, settles the end for good, and goes there. A turn reads
instances one after another, and after each of them tries again to settle the end.

The run is kept as a relation with everything that happened in it: which instances were read, in
which surroundings, from where to where. What holds of all structures is then proved by induction on
the run, mostly through `Turns.invariant`: a property of the progress that one more instance keeps,
and that a failed attempt keeps, is kept by all turns together.
-/

set_option autoImplicit false

namespace BinaryGrammar

/-- One instance of an element as it was read. -/
structure Instance (σ : Type) where
  context : Context
  before : Cursor σ
  value : Value
  after : Cursor σ

/-- The turn of one element of a structure. -/
structure Turn (σ : Type) where
  element : Nat
  before : Progress σ
  instances : List (Instance σ)
  after : Progress σ

/-- The values of a turn, in order. -/
def Turn.values {σ : Type} (t : Turn σ) : List Value := t.instances.map (·.value)

namespace Decoder

open Reader (Checks)

variable {σ : Type}

/-! ## Settling -/

/-- Everything that settling can do. -/
inductive Settles (d : Decoder σ) (outer : Context) (i start : Nat) (last : Bool) :
    Progress σ → Progress σ → Prop where
  /-- The end is known already. -/
  | known {p : Progress σ} : p.extent ≠ .pending → Settles d outer i start last p p
  /-- The length names a field that is still to come. -/
  | waits {p : Progress σ} {cause : Cause} :
      p.extent = .pending → d.extentBits? (p.context outer) i = .error cause →
      cause.isUnknownName = true → last = false → Settles d outer i start last p p
  /-- There is no length. -/
  | unbounded {p : Progress σ} :
      p.extent = .pending → d.extentBits? (p.context outer) i = .ok none →
      Settles d outer i start last p { p with extent := .unbounded }
  /-- The length has a value, and the structure has not passed its end. -/
  | fixed {p : Progress σ} {length : Nat} :
      p.extent = .pending → d.extentBits? (p.context outer) i = .ok (some length) →
      start + length < Word.modulus → p.cursor.pos ≤ start + length →
      Settles d outer i start last p { p with extent := .fixed (start + length) }

theorem stopOf_ok {start pos length stop : Nat} (h : stopOf start pos length = .ok stop) :
    stop = start + length ∧ start + length < Word.modulus ∧ pos ≤ start + length := by
  unfold stopOf Word.add? at h
  split at h
  · cases h
  · rename_i n hn
    split at hn
    · injection hn with hn
      split at h
      · cases h
      · cases h
        omega
    · cases hn

theorem settle_ok {d : Decoder σ} {outer : Context} {i start : Nat} {last : Bool}
    {p p' : Progress σ} {u : Unit} (h : d.settle outer i start last p = .ok u p') :
    Settles d outer i start last p p' := by
  unfold settle at h
  split at h
  · rename_i hpending
    split at h
    · rename_i hbits
      cases h
      exact .unbounded hpending hbits
    · rename_i length hbits
      split at h
      · rename_i stop hstop
        cases h
        obtain ⟨hstop, hword, hpos⟩ := stopOf_ok hstop
        subst hstop
        exact .fixed hpending hbits hword hpos
      · cases h
    · rename_i cause hbits
      split at h
      · rename_i hwait
        cases h
        simp only [Bool.and_eq_true, Bool.not_eq_true'] at hwait
        exact .waits hpending hbits hwait.2 hwait.1
      · cases h
  · rename_i hknown
    cases h
    exact .known hknown

namespace Settles

variable {d : Decoder σ} {outer : Context} {i start : Nat} {last : Bool} {p p' : Progress σ}

theorem cursor (h : Settles d outer i start last p p') : p'.cursor = p.cursor := by
  cases h <;> rfl

theorem frame (h : Settles d outer i start last p p') : p'.frame = p.frame := by
  cases h <;> rfl

/-- With the last field read the end is known. -/
theorem extent_ne_pending (h : Settles d outer i start true p p') : p'.extent ≠ .pending := by
  cases h with
  | known hknown => exact hknown
  | waits _ _ _ hlast => cases hlast
  | unbounded => exact Extent.noConfusion
  | fixed => exact Extent.noConfusion

end Settles

/-! ## Turns -/

/-- Instances of an element are read one after another. The last attempt may fail, which leaves no
more than its mark on the source. -/
inductive Repeated (d : Decoder σ) (read : ElementReader σ) (outer : Context)
    (i start child : Nat) : Progress σ → List (Instance σ) → Progress σ → Prop where
  | stop {p : Progress σ} : Repeated d read outer i start child p [] p
  | failed {p : Progress σ} {failure : Failure} {c : Cursor σ} :
      read (p.context outer) child p.cursor = .error failure c →
      Repeated d read outer i start child p []
        { p with cursor := { c with pos := p.cursor.pos } }
  | next {p p₁ p' : Progress σ} {v : Value} {c : Cursor σ} {xs : List (Instance σ)} :
      p.exhausted outer = false → read (p.context outer) child p.cursor = .ok v c →
      Settles d outer i start false (Progress.push { p with cursor := c } d.document v) p₁ →
      Repeated d read outer i start child p₁ xs p' →
      Repeated d read outer i start child p (⟨p.context outer, p.cursor, v, c⟩ :: xs) p'

/-- Why a repetition has ended after `xs`: there are as many instances as are allowed, the enclosing
structure is exhausted, the last instance covers nothing, or there are enough of them. -/
def Ended (outer : Context) (least : Int) (allowed count : Nat) (xs : List (Instance σ))
    (p : Progress σ) : Prop :=
  xs.length = allowed ∨ p.exhausted outer = true ∨
    (∃ x, xs.getLast? = some x ∧ x.after.pos = x.before.pos) ∨ least ≤ count + xs.length

/-- All instances but the last have moved the cursor. -/
def Moving (xs : List (Instance σ)) : Prop := ∀ x ∈ xs.dropLast, x.after.pos ≠ x.before.pos

/-- Each element has its turn. An element whose turn comes when the enclosing structure is exhausted
is passed over. -/
inductive Turns (d : Decoder σ) (read : ElementReader σ) (outer : Context) (i start : Nat) :
    Progress σ → List (Turn σ) → Progress σ → Prop where
  | nil {p : Progress σ} : Turns d read outer i start p [] p
  | passed {p p' : Progress σ} {child : Nat} {ts : List (Turn σ)} :
      p.exhausted outer = true → Turns d read outer i start p ts p' →
      Turns d read outer i start p (⟨child, p, [], p⟩ :: ts) p'
  | taken {p p₁ p' : Progress σ} {child : Nat} {least most : Int} {xs : List (Instance σ)}
      {ts : List (Turn σ)} :
      p.exhausted outer = false →
      d.evaluate (p.context outer) (d.document.repeatMin child) = .ok least →
      d.evaluate (p.context outer) (d.document.repeatMax child) = .ok most →
      Repeated d read outer i start child p xs p₁ →
      xs.length ≤ allowedInstances most → Moving xs →
      Ended outer least (allowedInstances most) 0 xs p₁ →
      Turns d read outer i start p₁ ts p' →
      Turns d read outer i start p (⟨child, p, xs, p₁⟩ :: ts) p'

section

variable {d : Decoder σ} {read : ElementReader σ} {outer : Context} {i start : Nat}
  {p p' : Progress σ}

/-- A property of the progress that one more instance keeps, and a failed attempt too, is kept by
a repetition. -/
theorem Repeated.invariant {child : Nat} {xs : List (Instance σ)} {P : Progress σ → Prop}
    (step : ∀ {p p₁ : Progress σ} {v : Value} {c : Cursor σ}, P p → p.exhausted outer = false →
      read (p.context outer) child p.cursor = .ok v c →
      Settles d outer i start false (Progress.push { p with cursor := c } d.document v) p₁ → P p₁)
    (failed : ∀ {p : Progress σ} {failure : Failure} {c : Cursor σ}, P p →
      read (p.context outer) child p.cursor = .error failure c →
      P { p with cursor := { c with pos := p.cursor.pos } })
    (h : Repeated d read outer i start child p xs p') : P p → P p' := by
  induction h with
  | stop => exact id
  | failed hread => exact fun hp => failed hp hread
  | next hroom hread hsettle _ ih => exact fun hp => ih (step hp hroom hread hsettle)

/-- The same for all turns of a structure. -/
theorem Turns.invariant {ts : List (Turn σ)} {P : Progress σ → Prop}
    (step : ∀ {p p₁ : Progress σ} {child : Nat} {v : Value} {c : Cursor σ}, P p →
      p.exhausted outer = false → read (p.context outer) child p.cursor = .ok v c →
      Settles d outer i start false (Progress.push { p with cursor := c } d.document v) p₁ → P p₁)
    (failed : ∀ {p : Progress σ} {child : Nat} {failure : Failure} {c : Cursor σ}, P p →
      read (p.context outer) child p.cursor = .error failure c →
      P { p with cursor := { c with pos := p.cursor.pos } })
    (h : Turns d read outer i start p ts p') : P p → P p' := by
  induction h with
  | nil => exact id
  | passed _ _ ih => exact ih
  | taken _ _ _ hrep _ _ _ _ ih => exact fun hp => ih (hrep.invariant step failed hp)

/-! ## The reader follows the relation -/

theorem attempt_ok {child : Nat} {enough : Bool} {a : Attempt}
    (h : d.attempt read outer i start child enough p = .ok a p') :
    (∃ v c, read (p.context outer) child p.cursor = .ok v c ∧
      Settles d outer i start false (Progress.push { p with cursor := c } d.document v) p' ∧
      (a = .done ↔ c.pos = p.cursor.pos)) ∨
    (a = .done ∧ enough = true ∧ ∃ failure c,
      read (p.context outer) child p.cursor = .error failure c ∧
      p' = { p with cursor := { c with pos := p.cursor.pos } }) := by
  unfold attempt at h
  split at h
  · rename_i v c hread
    -- an instance was read, and the end is settled once more
    left
    refine ⟨v, c, hread, ?_⟩
    dsimp only at h
    split at h
    · rename_i p₁ hsettle
      injection h with ha hp
      subst ha; subst hp
      exact ⟨settle_ok hsettle, by split <;> simp_all⟩
    · cases h
  · rename_i failure c hread
    -- the attempt failed, which is no failure of the structure if there are enough instances
    split at h
    · rename_i henough
      injection h with ha hp
      subst ha; subst hp
      simp only [Bool.and_eq_true] at henough
      exact Or.inr ⟨rfl, henough.1, failure, c, hread, rfl⟩
    · cases h

/-- Without room no instance is read, -/
theorem readInstances_exhausted {child allowed count : Nat} {least : Int}
    (h : p.exhausted outer = true) :
    d.readInstances read outer i start child least (allowed + 1) count p = .ok () p := by
  rw [readInstances]
  exact if_pos h

/-- and otherwise one is tried. -/
theorem readInstances_succ {child allowed count : Nat} {least : Int}
    (hroom : ¬p.exhausted outer) :
    d.readInstances read outer i start child least (allowed + 1) count p =
      (d.attempt read outer i start child (least ≤ count) >>= fun
        | .done => pure ()
        | .more =>
          if count + 1 < Word.modulus then
            d.readInstances read outer i start child least allowed (count + 1)
          else throw { cause := .overflow }) p := by
  rw [readInstances]
  refine (if_neg hroom).trans ?_
  cases hattempt : d.attempt read outer i start child (least ≤ count) p with
  | error f p' => rw [Reader.bind_of_error hattempt]
  | ok a p' =>
      rw [Reader.bind_of_ok hattempt]
      cases a with
      | done => rfl
      | more =>
          dsimp only
          split
          · rfl
          · rfl

theorem readInstances_ok {child : Nat} {least : Int} : ∀ (allowed count : Nat)
    {p p' : Progress σ} {u : Unit},
    d.readInstances read outer i start child least allowed count p = .ok u p' →
    ∃ xs, Repeated d read outer i start child p xs p' ∧ xs.length ≤ allowed ∧ Moving xs ∧
      Ended outer least allowed count xs p'
  -- on the number of instances that are still allowed; one attempt puts one instance in front
  | 0, count, p, p', u, h => by
      cases h
      exact ⟨[], .stop, Nat.le_refl _, by simp [Moving], Or.inl rfl⟩
  | allowed + 1, count, p, p', u, h => by
      unfold readInstances at h
      split at h
      · rename_i hexhausted
        cases h
        exact ⟨[], .stop, Nat.zero_le _, by simp [Moving], Or.inr (Or.inl hexhausted)⟩
      · rename_i hroom
        rw [Bool.not_eq_true] at hroom
        split at h
        · rename_i p₁ hattempt
          cases h
          -- the last attempt: an instance that covers nothing, or none
          rcases attempt_ok hattempt with
            ⟨v, c, hread, hsettle, hdone⟩ | ⟨_, henough, f, c, hread, hp⟩
          · refine ⟨[⟨p.context outer, p.cursor, v, c⟩], .next hroom hread hsettle .stop,
              by simp, by simp [Moving], ?_⟩
            exact Or.inr (Or.inr (Or.inl ⟨_, rfl, hdone.mp rfl⟩))
          · subst hp
            refine ⟨[], .failed hread, Nat.zero_le _, by simp [Moving], ?_⟩
            exact Or.inr (Or.inr (Or.inr (by simpa using henough)))
        · rename_i p₁ hattempt
          rcases attempt_ok hattempt with ⟨v, c, hread, hsettle, hdone⟩ | ⟨ha, _⟩
          · split at h
            case isFalse => cases h
            obtain ⟨xs, hrep, hlen, hmoving, hended⟩ := readInstances_ok allowed (count + 1) h
            have hmoved : c.pos ≠ p.cursor.pos := fun he => by cases hdone.mpr he
            refine ⟨_ :: xs, .next hroom hread hsettle hrep, by simpa using hlen, ?_, ?_⟩
            · -- the new instance need not have moved if it is the last, but it has
              cases xs with
              | nil => simp [Moving]
              | cons y ys =>
                  intro x hx
                  rw [List.dropLast_cons_cons, List.mem_cons] at hx
                  rcases hx with hx | hx
                  · rw [hx]
                    exact hmoved
                  · exact hmoving x hx
            · rcases hended with hall | hex | ⟨x, hx, hempty⟩ | henough
              · exact Or.inl (by rw [List.length_cons, hall])
              · exact Or.inr (Or.inl hex)
              · refine Or.inr (Or.inr (Or.inl ⟨x, ?_, hempty⟩))
                rw [List.getLast?_cons, hx]
                rfl
              · refine Or.inr (Or.inr (Or.inr ?_))
                rw [List.length_cons]
                push_cast at henough ⊢
                omega
          · cases ha
        · cases h

theorem bound_ok {e : Expression} {m : Int} (h : d.bound outer e p = .ok m p') :
    d.evaluate (p.context outer) e = .ok m ∧ p' = p := by
  unfold bound at h
  split at h
  · rename_i hm
    cases h
    exact ⟨hm, rfl⟩
  · cases h

theorem bound_bind {β : Type} {e : Expression} {f : Int → FieldReader σ β} {b : β}
    (h : (d.bound outer e >>= f) p = .ok b p') :
    ∃ n, d.evaluate (p.context outer) e = .ok n ∧ f n p = .ok b p' := by
  obtain ⟨n, p₁, hbound, h⟩ := Reader.bind_ok h
  obtain ⟨hn, hp⟩ := bound_ok hbound
  rw [hp] at h
  exact ⟨n, hn, h⟩

/-- An element has no turn, or its bounds have values and its instances are read. -/
theorem readElements_cons_ok {child : Nat} {rest : List Nat} {u : Unit}
    (h : d.readElements read outer i start (child :: rest) p = .ok u p') :
    (p.exhausted outer = true ∧ p' = p) ∨
    ∃ least most p₁, p.exhausted outer = false ∧
      d.evaluate (p.context outer) (d.document.repeatMin child) = .ok least ∧
      d.evaluate (p.context outer) (d.document.repeatMax child) = .ok most ∧
      d.readInstances read outer i start child least (allowedInstances most) 0 p = .ok () p₁ ∧
      d.readElements read outer i start rest p₁ = .ok () p' := by
  unfold readElements at h
  rw [Reader.get_bind] at h
  split at h
  · rename_i hexhausted
    cases h
    exact Or.inl ⟨hexhausted, rfl⟩
  · rename_i hroom
    rw [Bool.not_eq_true] at hroom
    obtain ⟨least, hleast, h⟩ := bound_bind h
    obtain ⟨most, hmost, h⟩ := bound_bind h
    obtain ⟨_, p₁, hinstances, h⟩ := Reader.bind_ok h
    exact Or.inr ⟨least, most, p₁, hroom, hleast, hmost, hinstances, h⟩

/-- Once the structure is exhausted, all elements that are left are passed over. -/
theorem Turns.passed_all (hexhausted : p.exhausted outer = true) : ∀ children : List Nat,
    ∃ ts, Turns d read outer i start p ts p ∧ ts.map (·.element) = children
  | [] => ⟨[], .nil, rfl⟩
  | child :: rest => by
      obtain ⟨ts, hts, hmap⟩ := Turns.passed_all hexhausted rest
      exact ⟨⟨child, p, [], p⟩ :: ts, .passed hexhausted hts, by rw [List.map_cons, hmap]⟩

theorem readElements_ok : ∀ (children : List Nat) {p p' : Progress σ} {u : Unit},
    d.readElements read outer i start children p = .ok u p' →
    ∃ ts, Turns d read outer i start p ts p' ∧ ts.map (·.element) = children
  | [], p, p', u, h => by
      cases h
      exact ⟨[], .nil, rfl⟩
  | child :: rest, p, p', u, h => by
      rcases readElements_cons_ok h with
        ⟨hexhausted, rfl⟩ | ⟨least, most, p₁, hroom, hleast, hmost, hinst, hrest⟩
      · exact Turns.passed_all hexhausted _
      · obtain ⟨xs, hrep, hlen, hmoving, hended⟩ := readInstances_ok _ _ hinst
        obtain ⟨ts, hts, hmap⟩ := readElements_ok rest hrest
        exact ⟨⟨child, p, xs, p₁⟩ :: ts,
          .taken hroom hleast hmost hrep hlen hmoving hended hts, by rw [List.map_cons, hmap]⟩

/-! ## The end of a structure -/

theorem requireOuter_checks (outer : Context) (pos stop : Nat) :
    Checks (requireOuter outer pos stop : Reader σ Unit)
      (∀ l, outer.limit = some l → stop ≤ l) := by
  unfold requireOuter
  cases outer.limit with
  | none => exact .none
  | some limit => exact .some (.require _ _)

/-- The end of a structure lies inside the data if their number is known, and else its last byte is
there. -/
theorem requireStop_ok {pos stop : Nat} {c c' : Cursor σ} {u : Unit}
    (h : d.requireStop pos stop c = .ok u c') :
    c'.pos = c.pos ∧ (∀ n, d.source.size c.source = some n → stop ≤ Word.mulSaturating n 8) ∧
      (c' = c ∨ ∃ bytes, d.fetch (stop / 8 - 1) 1 c = .ok bytes c') := by
  unfold requireStop at h
  rw [size_bind] at h
  cases hn : d.source.size c.source with
  | some n =>
      simp only [hn] at h
      obtain ⟨hle, hc⟩ := Reader.require_ok h
      refine ⟨by rw [hc], fun m hm => ?_, Or.inl hc⟩
      injection hm with hm
      rw [← hm]
      exact hle
  | none =>
      -- there is no size to compare with, so the last byte is fetched
      simp only [hn] at h
      obtain ⟨_, h⟩ := Reader.requireWord_bind h
      split at h
      · obtain ⟨_, h⟩ := Reader.require_bind h
        obtain ⟨bytes, c₂, hfetch, h⟩ := Reader.bind_ok h
        obtain ⟨_, hc⟩ := Reader.require_ok h
        rw [hc]
        exact ⟨fetch_pos hfetch, by simp, Or.inr ⟨bytes, hfetch⟩⟩
      · cases h
        exact ⟨rfl, by simp, Or.inl rfl⟩

/-- Going to the end of a structure of fixed length. -/
theorem finish_fixed_ok {stop : Nat} {c c' : Cursor σ} {padding : List Value}
    (h : d.finish outer (.fixed stop) c = .ok padding c') :
    (∀ l, outer.limit = some l → stop ≤ l) ∧ padding = d.paddingBetween c.pos stop ∧
      ∃ c₁ u, d.requireStop c.pos stop c = .ok u c₁ ∧ c' = { c₁ with pos := stop } := by
  simp only [finish] at h
  rw [Reader.pos_bind] at h
  obtain ⟨_, h⟩ := Reader.requireWord_bind h
  obtain ⟨houter, h⟩ := (requireOuter_checks ..).bind h
  obtain ⟨u, c₁, hstop, h⟩ := Reader.bind_ok h
  obtain ⟨_, h⟩ := Reader.requireWord_bind h
  rw [Reader.moveTo_bind] at h
  cases h
  exact ⟨houter, rfl, c₁, u, hstop, rfl⟩

/-- A structure without a length ends where its fields end. -/
theorem finish_open_ok {extent : Extent} {c c' : Cursor σ} {padding : List Value}
    (hopen : ∀ stop, extent ≠ .fixed stop) (h : d.finish outer extent c = .ok padding c') :
    c.pos % 8 = 0 ∧ padding = [] ∧ c' = c := by
  cases extent with
  | fixed stop => exact absurd rfl (hopen stop)
  | pending =>
      obtain ⟨hal, h⟩ := Reader.ensureAligned_bind h
      cases h
      exact ⟨hal, rfl, rfl⟩
  | unbounded =>
      obtain ⟨hal, h⟩ := Reader.ensureAligned_bind h
      cases h
      exact ⟨hal, rfl, rfl⟩

/-! ## The whole structure -/

/-- What it takes to make the value of a structure. -/
theorem finishStructure_ok {label start : Nat} {children : List Value} {c c' : Cursor σ} {v : Value}
    (h : finishStructure label start children c = .ok v c') :
    v = structureValue label start c.pos children ∧ c' = c := by
  unfold finishStructure at h
  rw [Reader.pos_bind] at h
  obtain ⟨_, h⟩ := Reader.requireWord_bind h
  cases h
  exact ⟨rfl, rfl⟩

/-- Everything that a successful run of the reader of a structure has done. -/
structure StructureRead (d : Decoder σ) (read : ElementReader σ) (outer : Context) (label i : Nat)
    (children : List Nat) (c : Cursor σ) (v : Value) (c' : Cursor σ) (p₀ p₁ p₂ : Progress σ)
    (ts : List (Turn σ)) (padding : List Value) : Prop where
  aligned : c.pos % 8 = 0
  /-- The end is settled before the first field, if it can be. -/
  opened : Settles d outer i c.pos false { cursor := c } p₀
  turns : Turns d read outer i c.pos p₀ ts p₁
  elements : ts.map (·.element) = children
  /-- The end is settled after the last field. -/
  closed : Settles d outer i c.pos true p₁ p₂
  finished : d.finish outer p₂.extent p₂.cursor = .ok padding c'
  value : v = structureValue label c.pos c'.pos (p₂.frame.values.toList ++ padding)

/-- A failure within a structure stays the same but for what was decoded, unless that overflows. -/
theorem inStructure_cases (label start pos : Nat) (children : List Value) (f : Failure) :
    inStructure label start pos children f = { cause := .overflow } ∨
      ∃ v, inStructure label start pos children f = { f with salvage := some v } := by
  unfold inStructure Failure.through
  split
  · split
    · exact Or.inr ⟨_, rfl⟩
    · split
      · exact Or.inr ⟨_, rfl⟩
      · exact Or.inl rfl
  · exact Or.inl rfl

/-- The fields of a structure are read, and then its end is gone to. -/
theorem readStructure_ends {label : Nat} {body : StructBody} {c c' : Cursor σ} {v : Value}
    (h : d.readStructure read outer label i body c = .ok v c') :
    d.document.order i = .fixed ∧ c.pos % 8 = 0 ∧ ∃ p padding,
      d.readFields read outer i c.pos body.elements { cursor := c } = .ok () p ∧
      d.finish outer p.extent p.cursor = .ok padding c' ∧
      v = structureValue label c.pos c'.pos (p.frame.values.toList ++ padding) := by
  unfold readStructure at h
  obtain ⟨horder, h⟩ := Reader.require_bind h
  obtain ⟨hal, h⟩ := Reader.ensureAligned_bind h
  obtain ⟨start, c₁, hpos, h⟩ := Reader.bind_ok h
  cases hpos
  split at h
  · cases h
  · rename_i p hfields
    dsimp only at h
    split at h
    · rename_i padding c₁ hfinish
      obtain ⟨hv, rfl⟩ := finishStructure_ok h
      exact ⟨horder, hal, p, padding, hfields, hfinish, hv⟩
    · cases h

theorem readStructure_ok {label : Nat} {body : StructBody} {c c' : Cursor σ} {v : Value}
    (h : d.readStructure read outer label i body c = .ok v c') :
    ∃ p₀ p₁ p₂ turns padding,
      StructureRead d read outer label i body.elements c v c' p₀ p₁ p₂ turns padding := by
  obtain ⟨_, hal, p₂, padding, hfields, hfinish, hvalue⟩ := readStructure_ends h
  unfold readFields at hfields
  obtain ⟨_, p₀, hopened, hfields⟩ := Reader.bind_ok hfields
  obtain ⟨_, p₁, hturns, hclosed⟩ := Reader.bind_ok hfields
  obtain ⟨turns, hturns, helements⟩ := readElements_ok _ hturns
  exact ⟨p₀, p₁, p₂, turns, padding, hal, settle_ok hopened, hturns, helements,
    settle_ok hclosed, hfinish, hvalue⟩

end

end Decoder

end BinaryGrammar
