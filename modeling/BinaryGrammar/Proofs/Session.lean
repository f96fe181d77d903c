import BinaryGrammar.Proofs.Machine
import BinaryGrammar.Proofs.Place

/-!
# Sessions

A session takes steps on one source: it seeks, decodes the start structure, or reads an element.
Some steps fail, and the session goes on. Because every read puts the frames, the limit and the
depth back and a failed one the cursor too, nothing but the cursor is left of the steps taken so
far: each step does what it would do as the first step of a new session that starts at the cursor.
-/

set_option autoImplicit false

namespace BinaryGrammar

/-- A step of a session. -/
inductive Step where
  | seek (offset : Nat)
  | decode
  | read (i : Nat)
  deriving DecidableEq, Repr

namespace Machine

variable {σ : Type}

/-- A machine that has not done anything yet, with its cursor at a bit position. -/
def new (source : σ) (pos : Nat := 0) : Machine σ := { cursor := { pos, source } }

/-- Read the start structure at the cursor. -/
def decode (d : Decoder σ) : Run σ Value :=
  match d.document.start with
  | some i => read d i
  | none => within fun _ => Reader.fail (.danglingReference "start")

/-- Take a step. Seeking gives no value. -/
def step (d : Decoder σ) : Step → Run σ (Option Value)
  | .seek offset => do
    within fun _ => Decoder.seek offset
    return none
  | .decode => do
    let v ← decode d
    return some v
  | .read i => do
    let v ← read d i
    return some v

/-- The state after a step, whether it fails or not. -/
def after (d : Decoder σ) (m : Machine σ) (s : Step) : Machine σ :=
  match step d s m with
  | .ok _ m' => m'
  | .error _ m' => m'

/-- The state after some steps. -/
def session (d : Decoder σ) (steps : List Step) (m : Machine σ) : Machine σ :=
  steps.foldl (after d) m

end Machine

namespace Decoder

variable {σ : Type}

/-- What a step does to the cursor of a decoder. -/
def step (d : Decoder σ) : Step → Reader σ (Option Value)
  | .seek offset => do
    seek offset
    return none
  | .decode => do
    let v ← d.decode
    return some v
  | .read i => do
    let v ← d.read i
    return some v

end Decoder

namespace Machine

variable {σ : Type} {d : Decoder σ} {m m' : Machine σ}

/-! ## What a read leaves behind -/

/-- All of the state but the cursor is the same. -/
structure SameSurroundings (m m' : Machine σ) : Prop where
  frames : m'.frames = m.frames
  limit : m'.limit = m.limit
  depth : m'.depth = m.depth

/-- What is promised of the result of a read. -/
def Kept (doc : Document) (m : Machine σ) : EStateM.Result Failure (Machine σ) Value → Prop
  | .ok v m' =>
    SameSurroundings m m' ∧
      v.offset = m.cursor.pos / 8 ∧ v.offset + v.length = (m'.cursor.pos + 7) / 8 ∧
      m.cursor.pos ≤ m'.cursor.pos ∧
      ((doc.structureOf? v.element).isSome → m.cursor.pos % 8 = 0 ∧ m'.cursor.pos % 8 = 0)
  | .error _ m' => SameSurroundings m m' ∧ m'.cursor.pos = m.cursor.pos

theorem read_kept (d : Decoder σ) (i : Nat) (m : Machine σ) : Kept d.document m (read d i m) := by
  rw [read_eq]
  cases h : d.readElement (Decoder.depthLimit - m.depth) m.context i m.cursor with
  | error failure c =>
      rw [within_error h]
      exact ⟨⟨rfl, rfl, rfl⟩, Decoder.readElement_error_pos h⟩
  | ok v c =>
      rw [within_ok h]
      have hspans := Decoder.readElement_spans _ h
      refine ⟨⟨rfl, rfl, rfl⟩, hspans.offset, hspans.bytes, hspans.le, fun hs => ?_⟩
      rw [Decoder.readElement_element h] at hs
      obtain ⟨⟨s, body⟩, hs⟩ := Option.isSome_iff_exists.mp hs
      exact Decoder.readElement_aligned h hs

/-! ## Steps of a session

Between its steps a machine is nothing but a cursor. -/

theorem read_idle (d : Decoder σ) (i : Nat) (c : Cursor σ) :
    read d i { cursor := c } = within (fun _ => d.read i) { cursor := c } := by
  rw [read_eq]
  rfl

theorem decode_idle (d : Decoder σ) (c : Cursor σ) :
    decode d { cursor := c } = within (fun _ => d.decode) { cursor := c } := by
  unfold decode Decoder.decode
  cases d.document.start with
  | none => rfl
  | some i => exact read_idle d i c

/-- What a sequence does depends on what its first step does in the state that it has. -/
theorem bind_at {α β : Type} {x y : Run σ α} {f : α → Run σ β} (h : x m = y m) :
    (x >>= f) m = (y >>= f) m := by
  change EStateM.bind x f m = EStateM.bind y f m
  unfold EStateM.bind
  rw [h]

/-- Between steps the machine does what the decoder does. -/
theorem step_idle (d : Decoder σ) (s : Step) (c : Cursor σ) :
    step d s { cursor := c } = within (fun _ => d.step s) { cursor := c } := by
  cases s with
  | seek offset => exact within_bind (f := fun _ _ => pure none) fun _ _ => rfl
  | decode =>
      refine (bind_at (decode_idle d c)).trans ?_
      exact within_bind (f := fun _ v => pure (some v)) fun _ _ => rfl
  | read i =>
      refine (bind_at (read_idle d i c)).trans ?_
      exact within_bind (f := fun _ v => pure (some v)) fun _ _ => rfl

/-- A seek goes to a word or fails where it is. -/
theorem seek_cases (offset : Nat) (c : Cursor σ) :
    (offset * 8 < Word.modulus ∧ Decoder.seek offset c = .ok () { c with pos := offset * 8 }) ∨
      ∃ failure, Decoder.seek offset c = .error failure c := by
  unfold Decoder.seek Word.mul?
  by_cases hword : offset * 8 < Word.modulus
  · simp only [if_pos hword]
    exact Or.inl ⟨hword, rfl⟩
  · simp only [if_neg hword]
    exact Or.inr ⟨_, rfl⟩

/-- Decoding is reading the start structure, if there is one. -/
theorem decode_cases (d : Decoder σ) :
    (∃ i, d.decode = d.read i) ∨ d.decode = Reader.fail (.danglingReference "start") := by
  unfold Decoder.decode
  cases d.document.start with
  | some i => exact Or.inl ⟨i, rfl⟩
  | none => exact Or.inr rfl

/-- A property that every read keeps, and that a cursor has when it is sent to a byte, is kept by
every step. -/
theorem step_keeps {J : Cursor σ → Prop} (hJ : d.Maintains J)
    (hseek : ∀ (c : Cursor σ) (offset : Nat), J c → offset * 8 < Word.modulus →
      J { c with pos := offset * 8 }) (s : Step) : Reader.Keeps J (d.step s) := by
  cases s with
  | seek offset =>
      refine Reader.Keeps.bind ⟨?_, ?_⟩ fun _ => Reader.Keeps.pure _
      · intro c c' u hc h
        rcases seek_cases offset c with ⟨hword, hok⟩ | ⟨failure, herror⟩
        · cases hok.symm.trans h
          exact hseek c offset hc hword
        · cases herror.symm.trans h
      · intro c c' e hc h
        rcases seek_cases offset c with ⟨_, hok⟩ | ⟨failure, herror⟩
        · cases hok.symm.trans h
        · cases herror.symm.trans h
          exact hc
  | decode =>
      refine Reader.Keeps.bind ?_ fun _ => Reader.Keeps.pure _
      rcases decode_cases d with ⟨i, hi⟩ | hnone
      · rw [hi]
        exact hJ _ _ _
      · rw [hnone]
        exact Reader.Keeps.throw _
  | read i => exact Reader.Keeps.bind (hJ _ _ _) fun _ => Reader.Keeps.pure _

/-- After a step nothing but a cursor is left, with the property. -/
theorem after_idle {J : Cursor σ → Prop} {s : Step} (hs : Reader.Keeps J (d.step s)) {c : Cursor σ}
    (hc : J c) : ∃ c', J c' ∧ after d { cursor := c } s = { cursor := c' } := by
  unfold after
  rw [step_idle]
  cases h : d.step s c with
  | ok a c' =>
      rw [within_ok (r := fun _ => d.step s) h]
      exact ⟨c', hs.ok hc h, rfl⟩
  | error failure c' =>
      rw [within_error (r := fun _ => d.step s) h]
      exact ⟨c', hs.error hc h, rfl⟩

/-- The same after all steps of a session. -/
theorem session_idle {J : Cursor σ → Prop} : ∀ (steps : List Step) {c : Cursor σ},
    (∀ s ∈ steps, Reader.Keeps J (d.step s)) → J c →
    ∃ c', J c' ∧ session d steps { cursor := c } = { cursor := c' }
  | [], c, _, hc => ⟨c, hc, rfl⟩
  | s :: rest, c, hs, hc => by
      obtain ⟨c₁, hc₁, hafter⟩ := after_idle (hs s List.mem_cons_self) hc
      change ∃ c', J c' ∧ session d rest (after d { cursor := c } s) = { cursor := c' }
      rw [hafter]
      exact session_idle rest (fun s hmem => hs s (List.mem_cons_of_mem _ hmem)) hc₁

/-- A property that every read keeps, and that a cursor has when it is sent to a byte, holds of the
cursor of every session. -/
theorem session_cursor {J : Cursor σ → Prop} (hJ : d.Maintains J)
    (hseek : ∀ (c : Cursor σ) (offset : Nat), J c → offset * 8 < Word.modulus →
      J { c with pos := offset * 8 }) {source : σ} (hstart : J { source }) (steps : List Step) :
    J (session d steps (new source)).cursor := by
  obtain ⟨c, hc, hsession⟩ := session_idle steps (fun s _ => step_keeps hJ hseek s) hstart
  change J (session d steps { cursor := { source } }).cursor
  rw [hsession]
  exact hc

theorem session_word (d : Decoder σ) (source : σ) (steps : List Step) :
    ∃ c, c.pos < Word.modulus ∧ session d steps (new source) = { cursor := c } := by
  have hsteps : ∀ s, Reader.Keeps (fun c : Cursor σ => c.pos < Word.modulus) (d.step s) :=
    step_keeps (Decoder.maintains_word d) fun _ _ _ hword => hword
  exact session_idle steps (c := { source }) (fun s _ => hsteps s) (show 0 < Word.modulus by decide)

/-- **Reads put everything back, so the steps of a session do not disturb each other.** Whatever
steps have been taken, the next one does what it does on a new machine over the same source with its
cursor at the same bit, which is what the decoder does there. This is because every read, in
whatever state and however deep inside other reads, leaves the frames, the limit and the depth as
they were, and the cursor too if it fails; a value that it gives lies between the old cursor and the
new one. -/
theorem session_restores (d : Decoder σ) (source : σ) (steps : List Step) :
    let m := session d steps (new source)
    (∀ s, step d s m = step d s (new m.cursor.source m.cursor.pos) ∧
      step d s m = within (fun _ => d.step s) (new m.cursor.source m.cursor.pos)) ∧
    m.cursor.pos < Word.modulus ∧
    ∀ (i : Nat) (n : Machine σ), Kept d.document n (read d i n) := by
  intro m
  -- between steps the state is a cursor and nothing else, so it is new
  obtain ⟨c, hc, hm⟩ := session_word d source steps
  have hnew : m = new m.cursor.source m.cursor.pos := by
    rw [show m = { cursor := c } from hm]
    rfl
  refine ⟨fun s => ⟨?_, ?_⟩, ?_, read_kept d⟩
  · rw [← hnew]
  · rw [hnew]
    exact step_idle d s _
  · rw [show m = { cursor := c } from hm]
    exact hc

/-- The inner box is read inside the outer one, at its second byte. -/
theorem session_restores_boxes :
    let m : Machine Bytes :=
      { cursor := { pos := 8, source := #[1, 2, 3] }, frames := [{}], limit := some 24, depth := 1 }
    Kept Document.boxes m (read Decoder.boxes 0 m) ∧
      ∃ v c, read Decoder.boxes 0 m = .ok v { m with cursor := c } ∧ c.pos = 16 :=
  ⟨(session_restores Decoder.boxes #[1, 2, 3] [.decode, .seek 1]).2.2 0 _, _, _, rfl, rfl⟩

end Machine

end BinaryGrammar
