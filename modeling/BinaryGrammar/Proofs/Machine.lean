import BinaryGrammar.Proofs.Reader

/-!
# Decoding with one state

`Decoder.readElement` hands the surroundings of an element down to it, so that nothing has to be put
back. The machine here keeps everything that changes in one state instead: the cursor, a stack of
frames, the limit of the innermost structure of fixed length, and the depth of nesting. Entering a
structure pushes a frame and may lower the limit; leaving it, with a value or with a failure, has to
pop the frame and put the limit back, and every read has to put the depth back.

The main statement is `Machine.read_eq`: the machine does so. A read changes the cursor as
`Decoder.readElement` does in the surroundings that the state holds, and leaves all else as it was.
-/

set_option autoImplicit false

namespace BinaryGrammar

/-- Everything that changes while data are decoded. -/
structure Machine (σ : Type) where
  cursor : Cursor σ
  /-- The frames of the structures that have been entered, innermost first. -/
  frames : List Frame := []
  /-- The end of the innermost structure of fixed length, as a bit position. -/
  limit : Option Nat := none
  /-- The number of reads that have begun and not ended. -/
  depth : Nat := 0

/-- A machine inside a structure whose fields are being read. -/
structure Machine.Inside (σ : Type) where
  machine : Machine σ
  extent : Extent := .pending

namespace Machine

variable {σ α : Type}

/-- A computation of the machine. -/
abbrev Run (σ : Type) := EStateM Failure (Machine σ)

/-- A computation of the machine inside a structure. -/
abbrev FieldRun (σ : Type) := EStateM Failure (Inside σ)

/-- The surroundings that the state holds. -/
def context (m : Machine σ) : Context := ⟨m.frames, m.limit⟩

/-- Whether nothing is left before the limit. -/
def exhausted (m : Machine σ) : Bool := m.context.exhausted m.cursor.pos

/-- Put a field into the innermost frame. -/
def push (m : Machine σ) (doc : Document) (v : Value) : Machine σ :=
  match m.frames with
  | [] => m
  | frame :: frames => { m with frames := frame.push (doc.element v.element).name v :: frames }

/-- Leave a structure: drop its frame and put the limit back. -/
def leave (m : Machine σ) (limit : Option Nat) : Machine σ :=
  { m with frames := m.frames.tail, limit }

/-- The fields in the innermost frame. -/
def fields (m : Machine σ) : List Value := (m.frames.headD {}).values.toList

/-- Run a reader in the surroundings that the state holds. -/
def within (r : Context → Reader σ α) : Run σ α := fun m =>
  match r m.context m.cursor with
  | .ok a c => .ok a { m with cursor := c }
  | .error failure c => .error failure { m with cursor := c }

/-! ## Structures -/

/-- Settle where a structure ends, and lower the limit to its end. -/
def settle (d : Decoder σ) (outer : Option Nat) (i start : Nat) (last : Bool) : FieldRun σ Unit :=
  fun s =>
    match s.extent with
    | .pending =>
      match d.extentBits? s.machine.context i with
      | .ok none => .ok () { s with extent := .unbounded }
      | .ok (some length) =>
        match Decoder.stopOf start s.machine.cursor.pos length with
        | .ok stop =>
          let limit := match outer with
            | some l => min l stop
            | none => stop
          .ok () { machine := { s.machine with limit := some limit }, extent := .fixed stop }
        | .error cause => .error { cause } s
      | .error cause => if !last && cause.isUnknownName then .ok () s else .error { cause } s
    | _ => .ok () s

/-- The value of a repeat bound. -/
def bound (d : Decoder σ) (e : Expression) : FieldRun σ Int := fun s =>
  match d.evaluate s.machine.context e with
  | .ok n => .ok n s
  | .error cause => .error { cause } s

/-- Try to read one more instance of an element. -/
def attempt (d : Decoder σ) (read : Nat → Run σ Value) (outer : Option Nat)
    (i start child : Nat) (enough : Bool) : FieldRun σ Decoder.Attempt := fun s =>
  let before := s.machine.cursor.pos
  match read child s.machine with
  | .ok v m =>
    match settle d outer i start false { s with machine := m.push d.document v } with
    | .ok _ s => .ok (if m.cursor.pos = before then .done else .more) s
    | .error failure s => .error failure s
  | .error failure m =>
    if enough && failure.cause.endsRepetition then
      .ok .done { s with machine := { m with cursor := { m.cursor with pos := before } } }
    else .error failure { s with machine := m }

/-- Read instances of an element after the first `count`, at most so many more. Their number has to
be a word. -/
def readInstances (d : Decoder σ) (read : Nat → Run σ Value) (outer : Option Nat)
    (i start child : Nat) (least : Int) : Nat → Nat → FieldRun σ Unit
  | 0, _ => pure ()
  | allowed + 1, count => fun s =>
    if s.machine.exhausted then .ok () s
    else match attempt d read outer i start child (least ≤ count) s with
      | .ok .done s => .ok () s
      | .ok .more s =>
        if count + 1 < Word.modulus then
          readInstances d read outer i start child least allowed (count + 1) s
        else .error { cause := .overflow } s
      | .error failure s => .error failure s

/-- Read the instances of each element in turn until the structure is exhausted. -/
def readElements (d : Decoder σ) (read : Nat → Run σ Value) (outer : Option Nat) (i start : Nat) :
    List Nat → FieldRun σ Unit
  | [] => pure ()
  | child :: rest => do
    let s ← get
    if s.machine.exhausted then pure ()
    else
      let least ← bound d (d.document.repeatMin child)
      let most ← bound d (d.document.repeatMax child)
      readInstances d read outer i start child least (Decoder.allowedInstances most) 0
      readElements d read outer i start rest

/-- Read all fields of a structure. -/
def readFields (d : Decoder σ) (read : Nat → Run σ Value) (outer : Option Nat) (i start : Nat)
    (children : List Nat) : FieldRun σ Unit := do
  settle d outer i start false
  readElements d read outer i start children
  settle d outer i start true

/-- Leave a structure after its fields, with a value or with a failure. -/
def close (d : Decoder σ) (outer : Option Nat) (label start : Nat) :
    EStateM.Result Failure (Inside σ) Unit → EStateM.Result Failure (Machine σ) Value
  | .error failure s =>
    .error (Decoder.inStructure label start s.machine.cursor.pos s.machine.fields failure)
      (s.machine.leave outer)
  | .ok _ s =>
    let children := s.machine.fields
    match within (fun ctx => d.finish ctx s.extent) (s.machine.leave outer) with
    | .ok padding m => within (fun _ => Decoder.finishStructure label start (children ++ padding)) m
    | .error failure m =>
      .error (Decoder.inStructure label start m.cursor.pos children failure) m

/-- Read an instance of a structure for an element. -/
def readStructure (d : Decoder σ) (read : Nat → Run σ Value) (label i : Nat) (body : StructBody) :
    Run σ Value := do
  within fun _ => Reader.require (d.document.order i = .fixed) (.unsupported .freeOrder)
  within fun _ => Reader.ensureAligned
  fun m =>
    let entered := { m with frames := {} :: m.frames }
    close d m.limit label m.cursor.pos
      (readFields d read m.limit i m.cursor.pos body.elements { machine := entered })

/-! ## Elements -/

/-- Read an instance of a structure under the label of a reference. -/
def readTarget (d : Decoder σ) (read : Nat → Run σ Value) (i : Nat) (target : Option Nat)
    (attr : String) : Run σ Value :=
  match target with
  | none => within fun _ => Reader.fail (.danglingReference attr)
  | some t =>
    match (d.document.element t).body with
    | .struct body => readStructure d read i t body
    | _ => within fun _ => Reader.fail (.danglingReference attr)

/-- Read an element according to its kind. -/
def readBody (d : Decoder σ) (read : Nat → Run σ Value) (i : Nat) : Run σ Value :=
  match (d.document.element i).body with
  | .struct body => readStructure d read i i body
  | .number body => within fun ctx => d.readNumber ctx i body
  | .string body => within fun ctx => d.readString ctx i body
  | .binary body => within fun ctx => d.readBinary ctx i body
  | .offset _ => within fun ctx => d.readOffset ctx i
  | .structRef body =>
    if body.disabled = some true then within fun _ => Decoder.readNothing i
    else readTarget d read i (body.target.bind (·.target)) "structure"
  | .grammarRef body =>
    if body.disabled = some true then within fun _ => Decoder.readNothing i
    else if (body.grammar.bind (·.target)).isNone then
      within fun _ => Reader.fail (.danglingReference "grammar")
    else readTarget d read i d.document.start "start"
  | .custom body => within fun ctx => d.readCustom ctx i body
  | .script _ => within fun _ => Decoder.readNothing i
  | .padding => within fun _ => Reader.fail (.unsupported .padding)

/-- Read an element. The depth is counted up for the time of the read; it, and not `fuel`, ends
elements that are nested too deep. -/
def readElement (d : Decoder σ) : Nat → Nat → Run σ Value
  | 0, i => throw { cause := .tooDeep Decoder.depthLimit, path := [(d.document.element i).name] }
  | fuel + 1, i => fun m =>
    if Decoder.depthLimit ≤ m.depth then
      .error { cause := .tooDeep Decoder.depthLimit, path := [(d.document.element i).name] } m
    else
      match readBody d (readElement d fuel) i { m with depth := m.depth + 1 } with
      | .ok v m' => .ok v { m' with depth := m'.depth - 1 }
      | .error failure m' =>
        .error (failure.within (d.document.element i).name)
          { m' with depth := m'.depth - 1, cursor := { m'.cursor with pos := m.cursor.pos } }

/-- Read an element at the cursor. -/
def read (d : Decoder σ) (i : Nat) : Run σ Value := readElement d (Decoder.depthLimit + 1) i

/-! ## The machine follows the reader of structures

While the fields of a structure are read, the state of the machine is determined by the progress of
the reader: the innermost frame is the frame of the structure, and the limit is the one that the
next field has. -/

/-- The state of the machine inside a structure whose reader has come so far. -/
def ofProgress (outer : Context) (depth : Nat) (p : Progress σ) : Inside σ where
  machine :=
    { cursor := p.cursor
      frames := p.frame :: outer.frames
      limit := (p.context outer).limit
      depth }
  extent := p.extent

/-- The result of the machine that goes with a result of the reader. -/
def follow (outer : Context) (depth : Nat) :
    EStateM.Result Failure (Progress σ) α → EStateM.Result Failure (Inside σ) α
  | .ok a p => .ok a (ofProgress outer depth p)
  | .error failure p => .error failure (ofProgress outer depth p)

variable {d : Decoder σ} {outer : Context} {depth i start : Nat} {p : Progress σ}

theorem ofProgress_context :
    (ofProgress outer depth p).machine.context = p.context outer := rfl

theorem settle_follows {last : Bool} :
    settle d outer.limit i start last (ofProgress outer depth p) =
      follow outer depth (d.settle outer i start last p) := by
  unfold settle Decoder.settle
  cases hext : p.extent with
  | unbounded => simp only [ofProgress, hext, follow]
  | fixed stop => simp only [ofProgress, hext, follow]
  | pending =>
      have hextent : (ofProgress outer depth p).extent = .pending := hext
      simp only [hextent, ofProgress_context]
      cases d.extentBits? (p.context outer) i with
      | error cause =>
          dsimp only
          split
          · rfl
          · rfl
      | ok length =>
          cases length with
          | none =>
              -- a structure without an end of its own leaves the limit alone
              have hlimit : (p.context outer).limit = outer.limit := by
                unfold Progress.context
                rw [hext]
              simp only [follow, ofProgress, hlimit]
              rfl
          | some length =>
              dsimp only
              have hpos : (ofProgress outer depth p).machine.cursor.pos = p.cursor.pos := rfl
              rw [hpos]
              cases Decoder.stopOf start p.cursor.pos length with
              | error cause => rfl
              | ok stop => rfl

theorem bound_follows {e : Expression} :
    bound d e (ofProgress outer depth p) = follow outer depth (d.bound outer e p) := by
  unfold bound Decoder.bound
  rw [ofProgress_context]
  cases d.evaluate (p.context outer) e with
  | ok n => rfl
  | error cause => rfl

/-- A sequence of steps follows the reader if each step does. -/
theorem bind_follows {β : Type} {x : FieldRun σ α} {y : FieldReader σ α} {f : α → FieldRun σ β}
    {g : α → FieldReader σ β}
    (hx : x (ofProgress outer depth p) = follow outer depth (y p))
    (hf : ∀ a p, f a (ofProgress outer depth p) = follow outer depth (g a p)) :
    (x >>= f) (ofProgress outer depth p) = follow outer depth ((y >>= g) p) := by
  cases hy : y p with
  | ok a p₁ =>
      rw [hy] at hx
      rw [Reader.bind_of_ok hx, Reader.bind_of_ok hy]
      exact hf a p₁
  | error failure p₁ =>
      rw [hy] at hx
      rw [Reader.bind_of_error hx, Reader.bind_of_error hy]
      rfl

/-- At the given depth the machine reads elements as the reader does, and changes nothing but the
cursor. -/
def FollowsAt (depth : Nat) (read : Nat → Run σ Value) (reader : ElementReader σ) : Prop :=
  ∀ j (m : Machine σ), m.depth = depth → read j m = within (reader · j) m

section

variable {read : Nat → Run σ Value} {reader : ElementReader σ}

theorem attempt_follows {child : Nat} {enough : Bool}
    (hread : FollowsAt depth read reader) :
    attempt d read outer.limit i start child enough (ofProgress outer depth p) =
      follow outer depth (d.attempt reader outer i start child enough p) := by
  unfold attempt Decoder.attempt
  dsimp only
  rw [hread child _ rfl]
  unfold within
  rw [ofProgress_context]
  dsimp only
  have hcursor : (ofProgress outer depth p).machine.cursor = p.cursor := rfl
  rw [hcursor]
  cases reader (p.context outer) child p.cursor with
  | ok v c =>
      dsimp only
      -- a value pushed on the innermost frame is pushed on the frame of the structure
      change (match settle d outer.limit i start false (ofProgress outer depth
        (Progress.push { p with cursor := c } d.document v)) with
          | .ok _ s => _ | .error _ s => _) = _
      rw [settle_follows]
      cases d.settle outer i start false (Progress.push { p with cursor := c } d.document v) with
      | ok u p₁ => rfl
      | error failure p₁ => rfl
  | error failure c =>
      dsimp only
      split
      · rfl
      · rfl

theorem readInstances_follows {child : Nat} {least : Int}
    (hread : FollowsAt depth read reader) :
    ∀ (allowed count : Nat) (p : Progress σ),
    readInstances d read outer.limit i start child least allowed count (ofProgress outer depth p) =
      follow outer depth (d.readInstances reader outer i start child least allowed count p)
  | 0, count, p => rfl
  | allowed + 1, count, p => by
      unfold readInstances Decoder.readInstances
      have hexhausted : (ofProgress outer depth p).machine.exhausted = p.exhausted outer := rfl
      rw [hexhausted]
      split
      · rfl
      · rw [attempt_follows hread]
        cases d.attempt reader outer i start child (least ≤ count) p with
        | error failure p₁ => rfl
        | ok a p₁ =>
            cases a with
            | done => rfl
            | more =>
                change (if _ then _ else _) = follow outer depth (if _ then _ else _)
                split
                · exact readInstances_follows hread allowed (count + 1) p₁
                · rfl

theorem readElements_follows
    (hread : FollowsAt depth read reader) :
    ∀ (children : List Nat) (p : Progress σ),
    readElements d read outer.limit i start children (ofProgress outer depth p) =
      follow outer depth (d.readElements reader outer i start children p)
  | [], p => rfl
  | child :: rest, p => by
      unfold readElements Decoder.readElements
      rw [Reader.get_bind, Reader.get_bind]
      have hexhausted : (ofProgress outer depth p).machine.exhausted = p.exhausted outer := rfl
      rw [hexhausted]
      split
      · rfl
      · refine bind_follows bound_follows fun least p => ?_
        refine bind_follows bound_follows fun most p => ?_
        refine bind_follows (readInstances_follows hread _ _ p) fun _ p => ?_
        exact readElements_follows hread rest p

theorem readFields_follows {children : List Nat}
    (hread : FollowsAt depth read reader) :
    readFields d read outer.limit i start children (ofProgress outer depth p) =
      follow outer depth (d.readFields reader outer i start children p) := by
  unfold readFields Decoder.readFields
  refine bind_follows settle_follows fun _ p => ?_
  refine bind_follows (readElements_follows hread children p) fun _ p => ?_
  exact settle_follows

/-! ## The machine follows the reader of elements -/

theorem within_ok {r : Context → Reader σ α} {m : Machine σ} {a : α} {c : Cursor σ}
    (h : r m.context m.cursor = .ok a c) : within r m = .ok a { m with cursor := c } := by
  unfold within
  rw [h]

theorem within_error {r : Context → Reader σ α} {m : Machine σ} {failure : Failure} {c : Cursor σ}
    (h : r m.context m.cursor = .error failure c) :
    within r m = .error failure { m with cursor := c } := by
  unfold within
  rw [h]

theorem within_bind {β : Type} {r : Context → Reader σ α} {f : Context → α → Reader σ β}
    {g : α → Run σ β} {m : Machine σ}
    (hg : ∀ a c, g a { m with cursor := c } = within (f · a) { m with cursor := c }) :
    (within r >>= g) m = within (fun ctx => r ctx >>= f ctx) m := by
  cases hr : r m.context m.cursor with
  | ok a c =>
      rw [Reader.bind_of_ok (within_ok hr), hg]
      have hbind : (r m.context >>= f m.context) m.cursor = f m.context a c := Reader.bind_of_ok hr
      cases hf : f m.context a c with
      | ok b c₁ =>
          rw [within_ok (r := fun ctx => r ctx >>= f ctx) (hbind.trans hf)]
          exact within_ok hf
      | error failure c₁ =>
          rw [within_error (r := fun ctx => r ctx >>= f ctx) (hbind.trans hf)]
          exact within_error hf
  | error failure c =>
      rw [Reader.bind_of_error (within_error hr)]
      exact (within_error (r := fun ctx => r ctx >>= f ctx) (Reader.bind_of_error hr)).symm

/-- The end of the reader of a structure, after its fields. -/
def closeReader (d : Decoder σ) (outer : Context) (label start : Nat) :
    EStateM.Result Failure (Progress σ) Unit → EStateM.Result Failure (Cursor σ) Value
  | .error failure p =>
    .error (Decoder.inStructure label start p.cursor.pos p.frame.values.toList failure) p.cursor
  | .ok _ p =>
    match d.finish outer p.extent p.cursor with
    | .ok padding c => Decoder.finishStructure label start (p.frame.values.toList ++ padding) c
    | .error failure c =>
      .error (Decoder.inStructure label start c.pos p.frame.values.toList failure) c

theorem readStructure_eq_close {label : Nat} {body : StructBody} :
    d.readStructure reader outer label i body = (do
      Reader.require (d.document.order i = .fixed) (.unsupported .freeOrder)
      Reader.ensureAligned
      fun c => closeReader d outer label c.pos
        (d.readFields reader outer i c.pos body.elements { cursor := c })) := rfl

/-- Whatever has happened inside a structure, its frame is popped and the limit is put back. -/
theorem close_follows {label : Nat} {m : Machine σ}
    {result : EStateM.Result Failure (Progress σ) Unit} {r : Context → Reader σ Value}
    (hr : r m.context m.cursor = closeReader d m.context label start result) :
    close d m.limit label start (follow m.context m.depth result) = within r m := by
  cases result with
  | error failure p => rw [within_error hr]; rfl
  | ok u p =>
      -- the end is checked after leaving, with the limit of the enclosing structure
      have hleave : (ofProgress m.context m.depth p).machine.leave m.limit =
          { m with cursor := p.cursor } := rfl
      simp only [follow, close, hleave]
      cases hfinish : d.finish m.context p.extent p.cursor with
      | ok padding c =>
          simp only [closeReader, hfinish] at hr
          rw [within_ok (m := { m with cursor := p.cursor }) hfinish]
          unfold within
          rw [hr]
          rfl
      | error failure c =>
          simp only [closeReader, hfinish] at hr
          rw [within_error (m := { m with cursor := p.cursor }) hfinish, within_error hr]
          rfl

theorem readStructure_eq {label : Nat} {body : StructBody} {m : Machine σ}
    (hread : FollowsAt m.depth read reader) :
    readStructure d read label i body m =
      within (fun ctx => d.readStructure reader ctx label i body) m := by
  simp only [readStructure_eq_close]
  unfold readStructure
  refine within_bind fun _ c => ?_
  refine within_bind fun _ c => ?_
  -- a machine that has just entered is that of a reader that has no fields yet
  change close d m.limit label c.pos (readFields d read m.context.limit i c.pos body.elements
    (ofProgress m.context m.depth { cursor := c })) = _
  rw [readFields_follows hread]
  exact close_follows (m := { m with cursor := c }) (r := fun ctx c => closeReader d ctx label c.pos
    (d.readFields reader ctx i c.pos body.elements { cursor := c })) rfl

theorem readTarget_eq {m : Machine σ} {target : Option Nat} {attr : String}
    (hread : FollowsAt m.depth read reader) :
    readTarget d read i target attr m =
      within (fun ctx => d.readTarget reader ctx i target attr) m := by
  unfold readTarget Decoder.readTarget
  cases target with
  | none => rfl
  | some t =>
      dsimp only
      cases (d.document.element t).body with
      | struct body => exact readStructure_eq hread
      | _ => rfl

theorem readBody_eq {m : Machine σ}
    (hread : FollowsAt m.depth read reader) :
    readBody d read i m = within (fun ctx => d.readBody reader ctx i) m := by
  unfold readBody Decoder.readBody
  cases (d.document.element i).body with
  | struct body => exact readStructure_eq hread
  | structRef body =>
      dsimp only
      split
      · rfl
      · exact readTarget_eq hread
  | grammarRef body =>
      dsimp only
      split
      · rfl
      · split
        · rfl
        · exact readTarget_eq hread
  | _ => rfl

end

/-- With enough fuel the machine reads an element as the reader does, and puts everything but the
cursor back. -/
theorem readElement_eq : ∀ (fuel : Nat) (i : Nat) (m : Machine σ),
    Decoder.depthLimit < fuel + m.depth →
    readElement d fuel i m =
      within (fun ctx => d.readElement (Decoder.depthLimit - m.depth) ctx i) m
  | 0, i, m, hfuel => by
      rw [show Decoder.depthLimit - m.depth = 0 by omega]
      rfl
  | fuel + 1, i, m, hfuel => by
      unfold readElement
      by_cases hdeep : Decoder.depthLimit ≤ m.depth
      · rw [if_pos hdeep, show Decoder.depthLimit - m.depth = 0 by omega]
        rfl
      · rw [if_neg hdeep,
          show Decoder.depthLimit - m.depth = Decoder.depthLimit - (m.depth + 1) + 1 by omega]
        -- the elements inside are read with one more on the depth
        have hread : FollowsAt (m.depth + 1) (readElement d fuel)
            (d.readElement (Decoder.depthLimit - (m.depth + 1))) := by
          intro j n hn
          rw [readElement_eq fuel j n (by omega), hn]
        rw [readBody_eq (m := { m with depth := m.depth + 1 }) hread]
        cases hbody : d.readBody (d.readElement (Decoder.depthLimit - (m.depth + 1))) m.context i
            m.cursor with
        | ok v c =>
            have helement : d.readElement (Decoder.depthLimit - (m.depth + 1) + 1) m.context i
                m.cursor = .ok v c := by
              simp only [Decoder.readElement, hbody]
            rw [within_ok (m := { m with depth := m.depth + 1 }) hbody, within_ok helement]
            rfl
        | error failure c =>
            have helement : d.readElement (Decoder.depthLimit - (m.depth + 1) + 1) m.context i
                m.cursor = .error (failure.within (d.document.element i).name)
                  { c with pos := m.cursor.pos } := by
              simp only [Decoder.readElement, hbody]
            rw [within_error (m := { m with depth := m.depth + 1 }) hbody, within_error helement]
            rfl

/-- **A read of the machine is a read of the decoder in the surroundings that the state holds;
nothing but the cursor changes.** -/
theorem read_eq (d : Decoder σ) (i : Nat) (m : Machine σ) :
    read d i m = within (fun ctx => d.readElement (Decoder.depthLimit - m.depth) ctx i) m :=
  readElement_eq (Decoder.depthLimit + 1) i m (by omega)

/-- The reads inside a read are reads of the machine: the fuel is never used up. -/
theorem read_unfold (d : Decoder σ) (i : Nat) (m : Machine σ) (hm : m.depth < Decoder.depthLimit) :
    read d i m =
      match readBody d (read d) i { m with depth := m.depth + 1 } with
      | .ok v m' => .ok v { m' with depth := m'.depth - 1 }
      | .error failure m' =>
        .error (failure.within (d.document.element i).name)
          { m' with depth := m'.depth - 1, cursor := { m'.cursor with pos := m.cursor.pos } } := by
  -- more fuel than depth is as good as any other
  have hfuel : FollowsAt (m.depth + 1) (readElement d Decoder.depthLimit)
      (d.readElement (Decoder.depthLimit - (m.depth + 1))) := by
    intro j n hn
    rw [readElement_eq _ j n (by omega), hn]
  have hread : FollowsAt (m.depth + 1) (read d)
      (d.readElement (Decoder.depthLimit - (m.depth + 1))) := by
    intro j n hn
    rw [read_eq, hn]
  have hbody : readBody d (read d) i { m with depth := m.depth + 1 } =
      readBody d (readElement d Decoder.depthLimit) i { m with depth := m.depth + 1 } :=
    (readBody_eq hread).trans (readBody_eq hfuel).symm
  rw [hbody]
  unfold read readElement
  rw [if_neg (Nat.not_le.mpr hm)]

end Machine

end BinaryGrammar
