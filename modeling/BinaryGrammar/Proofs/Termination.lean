import Mathlib
import BinaryGrammar.Proofs.FixedLength
import BinaryGrammar.Proofs.Reentry

/-!
# Decoding ends

Three bounds keep the readers from going on forever: a repetition without an upper bound allows only
as many instances as can be counted, and bytes are fetched and looked through in a number of pieces
that is known beforehand. Here are the same programs without these bounds. They need not end, so
they take the number of calls that may be under way at once, and give nothing where they need more;
the one that reads elements also keeps a log of what it does. Over a source that ends they need only
so many calls, and give the results of the readers: every round of a repetition but the last moves
the cursor on, and the cursor does not leave the source.

Grammars may refer to themselves without end, but reads are nested only so deep: that bound is part
of the program.
-/

set_option autoImplicit false

namespace BinaryGrammar.Decoder

open ByteSource (InsideAt)

variable {σ : Type} {d : Decoder σ} {n : Nat} {I : σ → Prop} {ctx outer : Context}

/-! ## Reading without bounds -/

/-- What a program that reads elements writes into its log. -/
inductive Event where
  /-- The beginning of a read, with the number of reads that are under way now. -/
  | read (nesting : Nat)
  /-- The beginning of a round of a repetition, with the bit position where the repetition began. -/
  | round (start number : Nat)
  deriving DecidableEq, Repr

/-- The result of a program that has ended, and its log, latest events first. -/
abbrev Ending (τ α : Type) := EStateM.Result Failure τ α × List Event

/-- The number of instances that a repeat bound allows, if it bounds them. -/
def mostInstances? (most : Int) : Option Nat := if most < 0 then none else some most.toNat

/-- Both repeat bounds of an element. -/
def bounds (d : Decoder σ) (outer : Context) (child : Nat) : FieldReader σ (Int × Int) := do
  let least ← d.bound outer (d.document.repeatMin child)
  let most ← d.bound outer (d.document.repeatMax child)
  return (least, most)

/-- The checks before the first field of a structure. -/
def enter (d : Decoder σ) (s : Nat) : Reader σ Unit := do
  Reader.require (d.document.order s = .fixed) (.unsupported .freeOrder)
  Reader.ensureAligned

/-- The end of a read: a failure gets the name of the element and puts the cursor back. -/
def leave (d : Decoder σ) (i : Nat) (c : Cursor σ) :
    EStateM.Result Failure (Cursor σ) Value → EStateM.Result Failure (Cursor σ) Value
  | .ok v c' => .ok v c'
  | .error failure c' =>
    .error (failure.within (d.document.element i).name) { c' with pos := c.pos }

/-- Settle the end of a structure after its last field, if all fields could be read. -/
def lastSettled (d : Decoder σ) (outer : Context) (i start : Nat) :
    EStateM.Result Failure (Progress σ) Unit → EStateM.Result Failure (Progress σ) Unit
  | .ok _ p => d.settle outer i start true p
  | .error failure p => .error failure p

/-- A reader for the elements inside a field, of which there are none. -/
def unread : ElementReader σ := fun _ _ => Reader.fail (.unsupported .padding)

mutual

/-- Read an element inside so many others, with at most `calls` calls under way at once. -/
def runElement (d : Decoder σ) (calls depth : Nat) (ctx : Context) (i : Nat) (c : Cursor σ)
    (log : List Event) : Option (Ending (Cursor σ) Value) :=
  match calls with
  | 0 => none
  | calls + 1 =>
    if depthLimit ≤ depth then
      some (.error { cause := .tooDeep depthLimit, path := [(d.document.element i).name] } c, log)
    else
      let log := .read (depth + 1) :: log
      match d.document.structureOf? i with
      | none => some (d.leave i c (d.readBody unread ctx i c), log)
      | some (s, body) =>
        match d.enter s c with
        | .error failure c' => some (d.leave i c (.error failure c'), log)
        | .ok _ c =>
          match d.settle ctx s c.pos false { cursor := c } with
          | .error failure p =>
            some (d.leave i c (Machine.closeReader d ctx i c.pos (.error failure p)), log)
          | .ok _ p => do
            let (fields, log) ← d.runElements calls (depth + 1) ctx s c.pos body.elements p log
            return (d.leave i c (Machine.closeReader d ctx i c.pos
              (d.lastSettled ctx s c.pos fields)), log)
termination_by structural calls

/-- Read the instances of each element in turn until the structure is exhausted. -/
def runElements (d : Decoder σ) (calls depth : Nat) (outer : Context) (i start : Nat)
    (children : List Nat) (p : Progress σ) (log : List Event) : Option (Ending (Progress σ) Unit) :=
  match calls, children with
  | 0, _ => none
  | _ + 1, [] => some (.ok () p, log)
  | calls + 1, child :: rest =>
    if p.exhausted outer then some (.ok () p, log)
    else
      match d.bounds outer child p with
      | .error failure p => some (.error failure p, log)
      | .ok (least, most) p => do
        let (result, log) ← d.runInstances calls depth outer i start child least
          (mostInstances? most) p.cursor.pos 0 p log
        match result with
        | .error failure p => return (.error failure p, log)
        | .ok _ p => d.runElements calls depth outer i start rest p log
termination_by structural calls

/-- Read instances of an element after the first `count`, in a repetition that began at a bit
position. -/
def runInstances (d : Decoder σ) (calls depth : Nat) (outer : Context) (i start child : Nat)
    (least : Int) (most : Option Nat) (first count : Nat) (p : Progress σ) (log : List Event) :
    Option (Ending (Progress σ) Unit) :=
  match calls with
  | 0 => none
  | calls + 1 =>
    if most.all (count < ·) then
      let log := .round first (count + 1) :: log
      if p.exhausted outer then some (.ok () p, log)
      else do
        let (result, log) ← d.runElement calls depth (p.context outer) child p.cursor log
        match d.attempt (fun _ _ _ => result) outer i start child (least ≤ count) p with
        | .ok .done p => return (.ok () p, log)
        | .ok .more p =>
          if count + 1 < Word.modulus then
            d.runInstances calls depth outer i start child least most first (count + 1) p log
          else return (.error { cause := .overflow } p, log)
        | .error failure p => return (.error failure p, log)
    else some (.ok () p, log)
termination_by structural calls

end

/-! ## The readers follow the programs -/

theorem readElement_leave (levels : Nat) (i : Nat) (c : Cursor σ) :
    d.readElement (levels + 1) ctx i c =
      d.leave i c (d.readBody (d.readElement levels) ctx i c) := by
  unfold readElement leave
  rfl

theorem readFields_eq {read : ElementReader σ} {i start : Nat} {children : List Nat}
    (p : Progress σ) :
    d.readFields read outer i start children p =
      match d.settle outer i start false p with
      | .error failure p => .error failure p
      | .ok _ p => d.lastSettled outer i start (d.readElements read outer i start children p) := by
  unfold readFields
  cases hfirst : d.settle outer i start false p with
  | error failure p₀ => exact Reader.bind_of_error hfirst
  | ok u p₀ =>
      rw [Reader.bind_of_ok hfirst]
      dsimp only
      unfold lastSettled
      cases hread : d.readElements read outer i start children p₀ with
      | error failure p₁ => exact Reader.bind_of_error hread
      | ok u p₁ => exact Reader.bind_of_ok hread

theorem readElements_cons {read : ElementReader σ} {i start child : Nat} {rest : List Nat}
    (p : Progress σ) :
    d.readElements read outer i start (child :: rest) p =
      if p.exhausted outer then .ok () p
      else match d.bounds outer child p with
        | .error failure p => .error failure p
        | .ok (least, most) p =>
          match d.readInstances read outer i start child least (allowedInstances most) 0 p with
          | .error failure p => .error failure p
          | .ok _ p => d.readElements read outer i start rest p := by
  rw [readElements, Reader.get_bind]
  split
  · rfl
  · cases hleast : d.bound outer (d.document.repeatMin child) p with
    | error failure p₁ =>
        have hbounds : d.bounds outer child p = .error failure p₁ := Reader.bind_of_error hleast
        rw [hbounds]
        exact Reader.bind_of_error hleast
    | ok least p₁ =>
        rw [Reader.bind_of_ok hleast]
        cases hmost : d.bound outer (d.document.repeatMax child) p₁ with
        | error failure p₂ =>
            have hbounds : d.bounds outer child p = .error failure p₂ :=
              (Reader.bind_of_ok hleast).trans (Reader.bind_of_error hmost)
            rw [hbounds]
            exact Reader.bind_of_error hmost
        | ok most p₂ =>
            have hbounds : d.bounds outer child p = .ok (least, most) p₂ :=
              (Reader.bind_of_ok hleast).trans (Reader.bind_of_ok hmost)
            rw [hbounds, Reader.bind_of_ok hmost]
            dsimp only
            cases hinst : d.readInstances read outer i start child least
                (allowedInstances most) 0 p₂ with
            | error failure p₃ => exact Reader.bind_of_error hinst
            | ok u p₃ => exact Reader.bind_of_ok hinst

theorem bounds_ok {child : Nat} {p p' : Progress σ} {b : Int × Int}
    (h : d.bounds outer child p = .ok b p') : p' = p := by
  obtain ⟨least, p₁, hleast, h⟩ := Reader.bind_ok h
  obtain ⟨most, p₂, hmost, h⟩ := Reader.bind_ok h
  cases h
  rw [(bound_ok hmost).2, (bound_ok hleast).2]

theorem enter_ok {s : Nat} {c c' : Cursor σ} {u : Unit} (h : d.enter s c = .ok u c') : c' = c := by
  obtain ⟨_, h⟩ := Reader.require_bind h
  exact (Reader.require_ok h).2

theorem readStructure_enter {read : ElementReader σ} {label s : Nat} {body : StructBody}
    (c : Cursor σ) :
    d.readStructure read ctx label s body c =
      match d.enter s c with
      | .error failure c => .error failure c
      | .ok _ c => Machine.closeReader d ctx label c.pos
          (d.readFields read ctx s c.pos body.elements { cursor := c }) := by
  rw [Machine.readStructure_eq_close]
  unfold enter
  cases horder : (Reader.require (d.document.order s = .fixed) (.unsupported .freeOrder) :
      Reader σ Unit) c with
  | error failure c₁ => rw [Reader.bind_of_error horder, Reader.bind_of_error horder]
  | ok u c₁ =>
      rw [Reader.bind_of_ok horder, Reader.bind_of_ok horder]
      cases haligned : (Reader.ensureAligned : Reader σ Unit) c₁ with
      | error failure c₂ => exact Reader.bind_of_error haligned
      | ok u c₂ => exact Reader.bind_of_ok haligned

/-- An event within the bounds that a source of `n` bytes sets: no more reads are nested than may
be, and no repetition has more than one round in addition to one for every bit that is left where it
begins. -/
def Event.Bounded (n : Nat) : Event → Prop
  | read nesting => nesting ≤ depthLimit
  | round start number => number ≤ 8 * n - start + 1

/-- A program ends with a result if it may have enough calls under way, and its log is within
bounds. -/
def EndsWith {τ α : Type} (n : Nat) (x : Nat → Option (Ending τ α))
    (result : EStateM.Result Failure τ α) : Prop :=
  ∃ log, (∃ enough, ∀ calls ≥ enough, x calls = some (result, log)) ∧ ∀ e ∈ log, e.Bounded n

namespace EndsWith

variable {τ τ' α β : Type} {x : Nat → Option (Ending τ α)} {y : Nat → Option (Ending τ' β)}
  {result : EStateM.Result Failure τ α} {first : EStateM.Result Failure τ' β} {log : List Event}

/-- A program ends that needs no other. -/
theorem of_succ (h : ∀ calls, x (calls + 1) = some (result, log)) (hlog : ∀ e ∈ log, e.Bounded n) :
    EndsWith n x result := by
  refine ⟨log, ⟨1, fun calls hcalls => ?_⟩, hlog⟩
  rw [← h (calls - 1), Nat.sub_add_cancel hcalls]

/-- A program ends that calls another one, which ends, and then goes on in a way that ends. -/
theorem call (next : List Event → Nat → Option (Ending τ α)) (hfirst : EndsWith n y first)
    (h : ∀ calls log, y calls = some (first, log) → x (calls + 1) = next log calls)
    (hnext : ∀ log, (∀ e ∈ log, e.Bounded n) → EndsWith n (next log) result) :
    EndsWith n x result := by
  obtain ⟨log, ⟨enough, hy⟩, hlog⟩ := hfirst
  obtain ⟨log', ⟨enough', hresult⟩, hlog'⟩ := hnext log hlog
  refine ⟨log', ⟨max enough enough' + 1, fun calls hcalls => ?_⟩, hlog'⟩
  obtain ⟨calls, rfl⟩ : ∃ k, calls = k + 1 := ⟨calls - 1, by omega⟩
  rw [h calls log (hy calls (by omega)), hresult calls (by omega)]

end EndsWith

/-- An instance after which there may be more moves the cursor on, inside the source. -/
theorem attempt_more (hbounded : d.Bounded n I) {levels i start child : Nat} {enough : Bool}
    {p p' : Progress σ} (hp : Within n I p.cursor)
    (h : d.attempt (d.readElement levels) outer i start child enough p = .ok .more p') :
    Within n I p'.cursor ∧ p.cursor.pos < p'.cursor.pos ∧ p'.cursor.pos ≤ 8 * n := by
  rcases attempt_ok h with ⟨v, c, hread, hsettle, hdone⟩ | ⟨hdone, _⟩
  · have hcursor : p'.cursor = c := hsettle.cursor
    have hmoved : c.pos ≠ p.cursor.pos := fun hsame => by cases hdone.mpr hsame
    rw [hcursor]
    have hle := (readElement_spans levels hread).le
    refine ⟨(hbounded.maintains_within ..).ok hp hread, by omega, ?_⟩
    exact (hbounded.readElement_reaches levels hread hp).resolve_left hmoved
  · cases hdone

/-- As many instances may still be read after the first `count` as the bound says, or as can be
counted if there is none. -/
def Allows (most : Option Nat) (count allowed : Nat) : Prop :=
  count + allowed = most.getD Word.modulus ∧ (most = none → count < Word.modulus)

theorem allows_mostInstances? (most : Int) :
    Allows (mostInstances? most) 0 (allowedInstances most) := by
  unfold Allows mostInstances? allowedInstances
  rw [Nat.zero_add]
  split
  · exact ⟨rfl, fun _ => by decide⟩
  · exact ⟨rfl, fun hnone => by cases hnone⟩

/-- Another instance is read as long as one is allowed. -/
theorem Allows.all_lt {most : Option Nat} {count allowed : Nat} (h : Allows most count allowed) :
    most.all (count < ·) = true ↔ 0 < allowed := by
  obtain ⟨hsum, hnone⟩ := h
  cases most with
  | none =>
      have hlt := hnone rfl
      rw [Option.getD_none] at hsum
      exact ⟨fun _ => by omega, fun _ => rfl⟩
  | some most =>
      rw [Option.getD_some] at hsum
      rw [Option.all_some, decide_eq_true_iff]
      omega

theorem Allows.succ {most : Option Nat} {count allowed : Nat} (h : Allows most count (allowed + 1))
    (hcount : count + 1 < Word.modulus) : Allows most (count + 1) allowed :=
  ⟨by rw [← h.1]; omega, fun _ => hcount⟩

/-- What a repetition keeps: the cursor stays where it may be. -/
theorem readInstances_within (hbounded : d.Bounded n I) {levels i start child allowed count : Nat}
    {least : Int} {p p' : Progress σ} {u : Unit} (hp : Within n I p.cursor)
    (h : d.readInstances (d.readElement levels) outer i start child least allowed count p =
      .ok u p') : Within n I p'.cursor := by
  obtain ⟨xs, hrepeated, _⟩ := readInstances_ok _ _ h
  refine hrepeated.invariant (P := fun p => Within n I p.cursor) ?_ ?_ hp
  · intro p p₁ v c hp _ hread hsettle
    rw [hsettle.cursor]
    exact (hbounded.maintains_within ..).ok hp hread
  · -- the cursor is put back, but the source may have changed
    intro p failure c hp hread
    have hc : Within n I c := (hbounded.maintains_within ..).error hp hread
    exact ⟨hc.state, hp.place⟩

/-- A log with one more event is within bounds if the event is. -/
theorem bounded_cons {e : Event} {log : List Event} (he : e.Bounded n)
    (hlog : ∀ e ∈ log, e.Bounded n) : ∀ e' ∈ e :: log, e'.Bounded n := by
  intro e' hmem
  rcases List.mem_cons.mp hmem with rfl | hmem
  · exact he
  · exact hlog e' hmem

section

variable (hbounded : d.Bounded n I) {depth levels : Nat}
  (hread : ∀ {ctx : Context} {i : Nat} {c : Cursor σ} {log : List Event}, Within n I c →
    (∀ e ∈ log, e.Bounded n) →
    EndsWith n (d.runElement · depth ctx i c log) (d.readElement levels ctx i c))
include hbounded hread

/-- A repetition ends with the instances that its reader gives: there are at most so many bits left,
and each round but the last takes one of them. -/
theorem runInstances_ends {i start child : Nat} {least : Int} {most : Option Nat} {first : Nat}
    (bits : Nat) : ∀ {allowed count : Nat} {p : Progress σ} {log : List Event},
    Within n I p.cursor → (∀ e ∈ log, e.Bounded n) → 8 * n - p.cursor.pos ≤ bits →
    count + bits ≤ 8 * n - first →
    Allows most count allowed →
    EndsWith n (d.runInstances · depth outer i start child least most first count p log)
      (d.readInstances (d.readElement levels) outer i start child least allowed count p) := by
  -- on the bits that are left; `allowed` goes down as well, but the rounds are not bounded by it
  induction bits using Nat.strong_induction_on with
  | _ bits ih =>
    intro allowed count p log hp hlog hbits hcount hmost
    cases allowed with
    | zero =>
        have hstop : ¬most.all (count < ·) := by
          rw [hmost.all_lt]
          omega
        refine .of_succ (fun calls => ?_) hlog
        rw [runInstances, if_neg hstop]
        rfl
    | succ allowed =>
        have hgo : most.all (count < ·) := hmost.all_lt.mpr (Nat.succ_pos _)
        have hround : ∀ e ∈ Event.round first (count + 1) :: log, e.Bounded n :=
          bounded_cons (by unfold Event.Bounded; omega) hlog
        rw [readInstances]
        dsimp only
        by_cases hexhausted : p.exhausted outer
        · rw [if_pos hexhausted]
          refine .of_succ (fun calls => ?_) hround
          rw [runInstances, if_pos hgo]
          exact if_pos hexhausted
        · rw [if_neg hexhausted]
          -- the program goes on with the result of the instance as the reader does
          have hinstance :
              EndsWith n (d.runElement · depth (p.context outer) child p.cursor _)
                (d.readElement levels (p.context outer) child p.cursor) := hread hp hround
          refine .call (fun log calls =>
              match d.attempt (d.readElement levels) outer i start child (least ≤ count) p with
              | .ok .done p => some (.ok () p, log)
              | .ok .more p =>
                if count + 1 < Word.modulus then
                  d.runInstances calls depth outer i start child least most first (count + 1) p log
                else some (.error { cause := .overflow } p, log)
              | .error failure p => some (.error failure p, log))
            hinstance (fun calls log' hrun => ?_) fun log' hlog' => ?_
          · rw [runInstances, if_pos hgo]
            dsimp only
            rw [if_neg hexhausted, hrun]
            rfl
          cases hattempt :
              d.attempt (d.readElement levels) outer i start child (least ≤ count) p with
          | error failure p' => exact .of_succ (fun _ => rfl) hlog'
          | ok a p' =>
              cases a with
              | done => exact .of_succ (fun _ => rfl) hlog'
              | more =>
                  dsimp only
                  by_cases hword : count + 1 < Word.modulus
                  · -- the cursor has moved, so there is a bit less and one more round is allowed
                    simp only [if_pos hword]
                    obtain ⟨hp', hlt, hle⟩ := attempt_more hbounded hp hattempt
                    exact ih (bits - 1) (by omega) hp' hlog' (by omega) (by omega)
                      (hmost.succ hword)
                  · simp only [if_neg hword]
                    exact .of_succ (fun _ => rfl) hlog'

theorem runElements_ends {i start : Nat} : ∀ (children : List Nat) {p : Progress σ}
    {log : List Event}, Within n I p.cursor → (∀ e ∈ log, e.Bounded n) →
    EndsWith n (d.runElements · depth outer i start children p log)
      (d.readElements (d.readElement levels) outer i start children p)
  | [], p, log, _, hlog => by
      refine .of_succ (fun calls => ?_) hlog
      rw [runElements]
      rfl
  | child :: rest, p, log, hp, hlog => by
      rw [readElements_cons]
      by_cases hexhausted : p.exhausted outer
      · rw [if_pos hexhausted]
        refine .of_succ (fun calls => ?_) hlog
        rw [runElements]
        exact if_pos hexhausted
      · rw [if_neg hexhausted]
        cases hbounds : d.bounds outer child p with
        | error failure p₁ =>
            refine .of_succ (fun calls => ?_) hlog
            rw [runElements, if_neg hexhausted, hbounds]
        | ok b p₁ =>
            obtain ⟨least, most⟩ := b
            cases bounds_ok hbounds
            have hinstances :
                EndsWith n (d.runInstances · depth outer i start child least (mostInstances? most)
                  p.cursor.pos 0 p log)
                  (d.readInstances (d.readElement levels) outer i start child least
                    (allowedInstances most) 0 p) :=
              runInstances_ends hbounded hread _ hp hlog (Nat.le_refl _) (by omega)
                (allows_mostInstances? most)
            refine .call (fun log calls =>
                match d.readInstances (d.readElement levels) outer i start child least
                  (allowedInstances most) 0 p with
                | .error failure p => some (.error failure p, log)
                | .ok _ p => d.runElements calls depth outer i start rest p log)
              hinstances (fun calls log' hrun => ?_) fun log' hlog' => ?_
            · rw [runElements, if_neg hexhausted, hbounds]
              dsimp only
              rw [hrun]
              rfl
            dsimp only
            cases hinst : d.readInstances (d.readElement levels) outer i start child least
                (allowedInstances most) 0 p with
            | error failure p₂ => exact .of_succ (fun _ => rfl) hlog'
            | ok u p₂ =>
              exact runElements_ends rest (readInstances_within hbounded hp hinst) hlog'

end

/-- **Reading ends.** -/
theorem runElement_ends (hbounded : d.Bounded n I) :
    ∀ (levels : Nat) {depth : Nat}, depth + levels = depthLimit →
    ∀ {ctx : Context} {i : Nat} {c : Cursor σ} {log : List Event}, Within n I c →
    (∀ e ∈ log, e.Bounded n) →
    EndsWith n (d.runElement · depth ctx i c log) (d.readElement levels ctx i c)
  -- on the levels that are left: the reader counts them down, the program counts up to the limit
  | 0, depth, hdepth, ctx, i, c, log, hc, hlog => by
      refine .of_succ (fun calls => ?_) hlog
      rw [runElement, if_pos (by omega)]
      rfl
  | levels + 1, depth, hdepth, ctx, i, c, log, hc, hlog => by
      have hlog : ∀ e ∈ Event.read (depth + 1) :: log, e.Bounded n :=
        bounded_cons (by unfold Event.Bounded; omega) hlog
      have hdepth' : ¬depthLimit ≤ depth := by omega
      rw [readElement_leave]
      cases hs : d.document.structureOf? i with
      | none =>
          have hfield : d.readBody (d.readElement levels) ctx i = d.readBody unread ctx i :=
            readBody_of_field hs
          refine .of_succ (fun calls => ?_) hlog
          rw [runElement, if_neg hdepth', hfield]
          simp only [hs]
      | some opens =>
          obtain ⟨s, body⟩ := opens
          rw [readBody_of_structure hs, readStructure_enter]
          cases henter : d.enter s c with
          | error failure c₁ =>
              refine .of_succ (fun calls => ?_) hlog
              rw [runElement, if_neg hdepth']
              simp only [hs, henter]
          | ok u c₁ =>
              cases enter_ok henter
              dsimp only
              rw [readFields_eq]
              cases hsettle : d.settle ctx s c.pos false { cursor := c } with
              | error failure p =>
                  refine .of_succ (fun calls => ?_) hlog
                  rw [runElement, if_neg hdepth']
                  simp only [hs, henter, hsettle]
              | ok u p =>
                  have hp : Within n I p.cursor := by
                    rw [(settle_ok hsettle).cursor]
                    exact hc
                  have hfields :
                      EndsWith n (d.runElements · (depth + 1) ctx s c.pos body.elements p _)
                        (d.readElements (d.readElement levels) ctx s c.pos body.elements p) :=
                    runElements_ends hbounded (runElement_ends hbounded levels (by omega))
                      body.elements hp hlog
                  refine .call (fun log _ => some (_, log)) hfields (fun calls log' hrun => ?_)
                    fun log' hlog' => .of_succ (fun _ => rfl) hlog'
                  rw [runElement, if_neg hdepth']
                  simp only [hs, henter, hsettle, hrun]
                  rfl

/-! ## Fetching without bounds -/

/-- Fetch `count` bytes at an offset after those in `got`, in chunks. -/
def runChunks (d : Decoder σ) (offset count : Nat) :
    Nat → Bytes → Cursor σ → Option (EStateM.Result Failure (Cursor σ) Bytes)
  | 0, _, _ => none
  | calls + 1, got, c =>
    if got.size < count then
      let want := min (count - got.size) chunk
      match d.fetch (offset + got.size) want c with
      | .error failure c => some (.error failure c)
      | .ok more c =>
        if more.size < want then some (.ok (got ++ more) c)
        else d.runChunks offset count calls (got ++ more) c
    else some (.ok got c)

theorem runChunks_eq {offset count : Nat} (chunks : Nat) : ∀ {calls : Nat} {got : Bytes}
    {c : Cursor σ}, count - got.size ≤ chunks * chunk → chunks < calls →
    d.runChunks offset count calls got c = some (d.fetchChunks offset count chunks got c) := by
  induction chunks with
  | zero =>
      intro calls got c hchunks hcalls
      obtain ⟨calls, rfl⟩ : ∃ k, calls = k + 1 := ⟨calls - 1, by omega⟩
      rw [runChunks, if_neg (by omega)]
      rfl
  | succ chunks ih =>
      intro calls got c hchunks hcalls
      obtain ⟨calls, rfl⟩ : ∃ k, calls = k + 1 := ⟨calls - 1, by omega⟩
      rw [runChunks, fetchChunks]
      by_cases hlt : got.size < count
      · rw [if_pos hlt, if_pos hlt]
        cases hfetch : d.fetch (offset + got.size) (min (count - got.size) chunk) c with
        | error failure c' =>
            rw [Reader.bind_of_error hfetch]
            simp only [hfetch]
        | ok more c' =>
            rw [Reader.bind_of_ok hfetch]
            simp only [hfetch]
            split
            · rfl
            · refine ih ?_ (Nat.lt_of_succ_lt_succ hcalls)
              rw [Array.size_append]
              rw [Nat.succ_mul] at hchunks
              omega
      · rw [if_neg hlt, if_neg hlt]
        rfl

/-- The bytes that may be scanned, if the element or the enclosing structure bounds them. -/
def scanCap? : Option Nat → Option Nat → Option Nat
  | some max, some room => some (min max room)
  | some max, none => some max
  | none, room => room

/-- The bytes to look through next, after so many. -/
def nextWindow (cap : Option Nat) (scanned : Nat) : Nat :=
  match cap with
  | some cap => min (cap - scanned) window
  | none => window

/-- Look for a terminator from an offset on, after the bytes in `text`. -/
def runScan (d : Decoder σ) (terminator : Bytes) (offset : Nat) (cap : Option Nat) :
    Nat → Bytes → Cursor σ → Option (EStateM.Result Failure (Cursor σ) Scan)
  | 0, _, _ => none
  | calls + 1, text, c =>
    let unit := terminator.size
    if cap.any (· < text.size) then some (.error { cause := .overflow } c)
    else
      let want := nextWindow cap text.size
      if want < unit then some (.ok ⟨text, text.size⟩ c)
      else
        match d.fetch (offset + text.size) want c with
        | .error failure c => some (.error failure c)
        | .ok got c =>
          let units := got.size / unit
          match got.findUnit? unit units (· == terminator) with
          | some i =>
            if text.size + i * unit + unit < Word.modulus then
              some (.ok ⟨text ++ got.extract 0 (i * unit), text.size + i * unit + unit⟩ c)
            else some (.error { cause := .overflow } c)
          | none =>
            if text.size + units * unit < Word.modulus then
              let text := text ++ got.extract 0 (units * unit)
              if got.size < want then some (.ok ⟨text, text.size⟩ c)
              else d.runScan terminator offset cap calls text c
            else some (.error { cause := .overflow } c)

/-- No source has so many bytes that the bound for scans without one is ever felt. -/
theorem nextWindow_eq (max room : Option Nat) {scanned : Nat}
    (h : scanned + window ≤ Word.modulus) :
    nextWindow (scanCap? max room) scanned = min (scanCap max room - scanned) window := by
  unfold nextWindow scanCap wholeSpace
  cases max with
  | none =>
      cases room with
      | none => simp only [scanCap?, Option.getD_none]; omega
      | some room => simp only [scanCap?, Option.getD_none, Option.getD_some]; omega
  | some max =>
      cases room with
      | none => simp only [scanCap?, Option.getD_none, Option.getD_some]; omega
      | some room => simp only [scanCap?, Option.getD_some]

/-- A scan that has not passed the bound in words has not passed the bound itself. -/
theorem not_any_scanCap? (max room : Option Nat) {scanned : Nat} (h : scanned ≤ scanCap max room) :
    ¬(scanCap? max room).any (· < scanned) := by
  unfold scanCap at h
  cases max with
  | none =>
      cases room with
      | none => exact Bool.false_ne_true
      | some room =>
          simp only [scanCap?, Option.any_some, decide_eq_true_eq, Option.getD_some] at h ⊢
          omega
  | some max =>
      cases room with
      | none =>
          simp only [scanCap?, Option.any_some, decide_eq_true_eq, Option.getD_some] at h ⊢
          omega
      | some room =>
          simp only [scanCap?, Option.any_some, decide_eq_true_eq, Option.getD_some] at h ⊢
          omega

/-- What is left after a full window: less than a unit, or one window less. -/
theorem window_left {cap scanned size windows unit : Nat} (hunit : unit = 1 ∨ unit = 2)
    (hsize : size = min (cap - scanned) window)
    (hwindows : (cap - scanned) / window + 1 ≤ windows + 1) :
    cap - (scanned + size / unit * unit) < unit ∨
      (cap - (scanned + size / unit * unit)) / window + 1 ≤ windows := by
  unfold window at *
  rcases hunit with hunit | hunit
  · rw [hunit]
    omega
  · rw [hunit]
    omega

theorem runScan_eq (hends : d.source.Ends n I) (hn : n + window ≤ Word.modulus) {terminator : Bytes}
    (hunit : terminator.size = 1 ∨ terminator.size = 2) {offset : Nat} {max room : Option Nat} :
    ∀ (windows : Nat) {calls : Nat} {text : Bytes} {c : Cursor σ},
    I c.source → InsideAt n offset text → text.size ≤ scanCap max room →
    (scanCap max room - text.size < terminator.size ∨
      (scanCap max room - text.size) / window + 1 ≤ windows) → windows < calls →
    d.runScan terminator offset (scanCap? max room) calls text c =
      some (d.scan terminator offset (scanCap max room) windows text c)
  | windows, calls + 1, text, c, hc, htext, hfit, hwindows, hcalls => by
      have hscanned : text.size + window ≤ Word.modulus := by
        unfold InsideAt at htext
        omega
      rw [runScan, if_neg (not_any_scanCap? max room hfit), nextWindow_eq max room hscanned]
      cases windows with
      | zero =>
          have hleft := hwindows.resolve_right (Nat.not_succ_le_zero _)
          dsimp only
          rw [if_pos (by omega)]
          rfl
      | succ windows =>
          rw [scan]
          dsimp only
          rw [Reader.require_of hfit]
          split
          · rfl
          · rename_i hwant
            cases hfetch : d.fetch (offset + text.size)
                (min (scanCap max room - text.size) window) c with
            | error failure c' => rw [Reader.bind_of_error hfetch]
            | ok got c' =>
                rw [Reader.bind_of_ok hfetch]
                dsimp only
                cases hfind : got.findUnit? terminator.size (got.size / terminator.size)
                    (· == terminator) with
                | some k =>
                    dsimp only
                    unfold Reader.requireWord
                    split <;> rfl
                | none =>
                    dsimp only
                    unfold Reader.requireWord
                    split
                    · split
                      · rfl
                      · -- a full window is inside the source, which ends
                        rename_i hfull
                        have hin := fetch_yields hends.yields hc hfetch
                        have hle := fetch_size_le hfetch
                        have hmul := Nat.div_mul_le_self got.size terminator.size
                        have hsize : (text ++ got.extract 0
                            (got.size / terminator.size * terminator.size)).size =
                            text.size + got.size / terminator.size * terminator.size := by
                          rw [Array.size_append, Array.size_extract, Nat.min_eq_left hmul,
                            Nat.sub_zero]
                        refine runScan_eq hends hn hunit windows
                          ((fetch_keeps hends.stays _ _).ok hc hfetch) (htext.append hin.extract)
                          (by omega) ?_ (Nat.lt_of_succ_lt_succ hcalls)
                        rw [hsize]
                        exact window_left hunit (by omega) (by omega)
                    · rfl
  termination_by windows => windows

/-! ## All loops end -/

/-- **Decoding ends.** Over a source that gives no bytes after the first `n`, and without scripts,
reading any element from wherever a session has come to ends even if nothing bounds its repetitions,
with the result of the reader. Reads are never nested deeper than the limit, and no repetition has
more rounds than one for every bit from where it begins to the end of the source, and one more. The
loops inside fields end as well: fetching bytes in chunks and, if the bytes can be counted, looking
for the terminator of a string. -/
theorem read_terminates {source : σ} (hends : d.source.Ends n I) (hscripts : d.scripts = .empty)
    (hsource : I source) (steps : List Step) (i : Nat) :
    (∃ log enough,
      (∀ calls ≥ enough,
        d.runElement calls 0 {} i (Machine.session d steps (.new source)).cursor [] =
          some (d.read i (Machine.session d steps (.new source)).cursor, log)) ∧
      ∀ e ∈ log, e.Bounded n) ∧
    (∀ offset count (c : Cursor σ), ∃ enough, ∀ calls ≥ enough,
      d.runChunks offset count calls #[] c =
        some (d.fetchChunks offset count (count / chunk + 1) #[] c)) ∧
    ∀ encoding delimiter max room offset (c : Cursor σ), n + window ≤ Word.modulus → I c.source →
      ∃ enough, ∀ calls ≥ enough,
        d.runScan (Text.Encoding.unit encoding delimiter) offset (scanCap? max room) calls #[] c =
          some (d.scan (Text.Encoding.unit encoding delimiter) offset (scanCap max room)
            (scanCap max room / window + 2) #[] c) := by
  have hbounded : d.Bounded n I := .of_empty hends hscripts
  refine ⟨?_, ?_, ?_⟩
  · obtain ⟨log, ⟨enough, hrun⟩, hlog⟩ := runElement_ends hbounded depthLimit (Nat.zero_add _)
      (i := i) (hbounded.session_within hsource steps) (List.forall_mem_nil _)
    exact ⟨log, enough, hrun, hlog⟩
  · intro offset count c
    refine ⟨count / chunk + 2, fun calls hcalls => runChunks_eq _ ?_ hcalls⟩
    have hlt := Nat.lt_div_mul_add (a := count) (b := chunk) (by decide)
    rw [Nat.succ_mul]
    exact Nat.le_of_lt (Nat.lt_of_le_of_lt (Nat.sub_le ..) hlt)
  · intro encoding delimiter max room offset c hn hc
    have hunit : (Text.Encoding.unit encoding delimiter).size = 1 ∨
        (Text.Encoding.unit encoding delimiter).size = 2 := by
      unfold Text.Encoding.unit
      split
      · exact Or.inr rfl
      · exact Or.inr rfl
      · exact Or.inl rfl
    exact ⟨scanCap max room / window + 3, fun calls hcalls =>
      runScan_eq hends hn hunit _ hc (Or.inl rfl) (Nat.zero_le _) (Or.inr (by simp))
        hcalls⟩

/-- A structure of as many bytes as there are, and at least more than can be, over data that do not
tell their size. The structure may also stand inside itself, but only after its bytes. -/
def endless : Decoder Bytes where
  source := .unsized
  document := .ofParts "" {}
    #[{ body := .number { length := some (.constant 1) }
        repeats := { min := some (.constant Word.greatest), max := some (.constant (-1)) } },
      { body := .structRef { target := some { reference := .id 3, target := some 2 } } },
      { ident := { id := 3 }, body := .struct { elements := [0, 1] } }] #[]

/-- With two bytes it ends where a third is missing. -/
theorem read_terminates_endless : ∃ failure c log enough,
    (∀ calls ≥ enough,
      endless.runElement calls 0 {} 2 { source := #[1, 2] } [] = some (.error failure c, log)) ∧
    failure.cause = .endOfInput 2 1 0 ∧ ∀ e ∈ log, e.Bounded 2 := by
  have hcause : (Reader.failure? (endless.read 2) { source := #[1, 2] }).map (·.cause) =
      some (.endOfInput 2 1 0) := by
    cbv
  obtain ⟨failure, hfailure, hcause⟩ := Option.map_eq_some_iff.mp hcause
  obtain ⟨c, hread⟩ := Reader.error_of_failure? hfailure
  have hends : endless.source.Ends 2 (· = #[1, 2]) := ByteSource.unsized_ends #[1, 2]
  obtain ⟨log, enough, hrun, hlog⟩ := (read_terminates hends rfl rfl [] 2).1
  refine ⟨failure, c, log, enough, ?_, hcause, hlog⟩
  rw [← hread]
  exact hrun

end BinaryGrammar.Decoder
