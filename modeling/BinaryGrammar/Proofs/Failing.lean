import BinaryGrammar.Proofs.Element

/-!
# How a read fails

The readers are opened once more, for the runs that do not succeed. Most failures say no more than
their cause. Only two keep something of a field: bytes of which there are not enough, and a field
that is not accepted. A structure fails by itself, or with the failure of one of its fields; in both
cases the fields before were read, so that what a field and a failed attempt keep still holds of the
progress of the structure.
-/

set_option autoImplicit false

namespace BinaryGrammar

/-- A failure that says no more than its cause. -/
structure Failure.Bare (f : Failure) : Prop where
  path : f.path = []
  salvage : f.salvage = none

theorem Failure.Bare.of_cause (cause : Cause) : Failure.Bare { cause } := ⟨rfl, rfl⟩

/-- What was decoded before a failure lies in the first `n` bytes. -/
def Failure.Salvaged (n : Nat) (f : Failure) : Prop :=
  ∀ part, f.salvage = some part → part.stop ≤ n

theorem Failure.Salvaged.of_none {n : Nat} {f : Failure} (h : f.salvage = none) : f.Salvaged n := by
  intro part hpart
  rw [h] at hpart
  cases hpart

/-! ## Calculations -/

/-- The causes for which a calculation without a cursor may fail. -/
def Cause.Calculated : Cause → Prop
  | .expression .. => True
  | .malformed _ => True
  | .unsupported _ => True
  | _ => False

/-- A calculation fails for no other causes. -/
structure Calculates {α : Type} (x : Except Cause α) : Prop where
  error : ∀ {cause : Cause}, x = .error cause → cause.Calculated

namespace Calculates

variable {α β : Type}

theorem ok (a : α) : Calculates (.ok a) := ⟨nofun⟩

theorem bind {x : Except Cause α} {f : α → Except Cause β} (hx : Calculates x)
    (hf : ∀ a, Calculates (f a)) : Calculates (x >>= f) := by
  refine ⟨fun {cause} h => ?_⟩
  rcases Reader.except_bind_error h with h | ⟨a, _, h⟩
  · exact hx.error h
  · exact (hf a).error h

end Calculates

namespace Decoder

variable {σ : Type} (d : Decoder σ) (ctx : Context) (i : Nat)

theorem evaluate_calculates (e : Expression) : Calculates (d.evaluate ctx e) := by
  refine ⟨fun {cause} h => ?_⟩
  unfold evaluate at h
  split at h
  · cases h
  · split at h
    · cases h
    · cases h
      trivial

theorem bitsOf_calculates (length : Int) : Calculates (d.bitsOf i length) := by
  refine ⟨fun {cause} h => ?_⟩
  unfold bitsOf at h
  split at h
  · cases h
    trivial
  · split at h
    · cases h
    · cases h
      trivial

theorem wholeBytes_calculates (bits : Nat) : Calculates (wholeBytes bits) := by
  refine ⟨fun {cause} h => ?_⟩
  unfold wholeBytes at h
  split at h
  · cases h
  · cases h
    trivial

theorem required_calculates (length : Option Nat) : Calculates (required length) := by
  refine ⟨fun {cause} h => ?_⟩
  unfold required at h
  split at h
  · cases h
  · cases h
    trivial

theorem lengthBits?_calculates : Calculates (d.lengthBits? ctx i) := by
  unfold lengthBits?
  split
  · exact .ok _
  · exact (evaluate_calculates d ctx _).bind fun _ => (bitsOf_calculates d i _).bind fun _ => .ok _

theorem lengthBytes?_calculates : Calculates (d.lengthBytes? ctx i) := by
  unfold lengthBytes?
  refine (lengthBits?_calculates d ctx i).bind fun length => ?_
  split
  · exact .ok _
  · exact (wholeBytes_calculates _).bind fun _ => .ok _

theorem lengthBits_calculates : Calculates (d.lengthBits ctx i) :=
  (lengthBits?_calculates d ctx i).bind required_calculates

theorem lengthBytes_calculates : Calculates (d.lengthBytes ctx i) :=
  (lengthBytes?_calculates d ctx i).bind required_calculates

theorem extentBits?_calculates : Calculates (d.extentBits? ctx i) := by
  have htotal (length : Int) : Calculates (d.total ctx i length) := by
    refine ⟨fun {cause} h => ?_⟩
    unfold total at h
    split at h
    · cases h
    · split at h
      · rename_i heval
        cases h
        exact (evaluate_calculates d ctx _).error heval
      · split at h
        · cases h
        · cases h
          trivial
  unfold extentBits?
  split
  · exact .ok _
  · exact (evaluate_calculates d ctx _).bind fun length => (htotal length).bind fun _ =>
      (bitsOf_calculates d i _).bind fun _ => (wholeBytes_calculates _).bind fun _ => .ok _

theorem bigEndian_calculates : Calculates (d.bigEndian i) := by
  refine ⟨fun {cause} h => ?_⟩
  unfold bigEndian at h
  split at h
  · cases h
  · cases h
  · cases h
    trivial

theorem decodeText_calculates (name : String) (encoding : Option Text.Encoding) (bytes : Bytes) :
    Calculates (decodeText name encoding bytes) := by
  refine ⟨fun {cause} h => ?_⟩
  unfold decodeText at h
  split at h
  · cases h
    trivial
  · split at h
    · cases h
    · cases h
      trivial

end Decoder

namespace Reader

variable {σ α β : Type} {c c' : Cursor σ} {e : Failure}

theorem require_bind_error {p : Prop} [Decidable p] {cause : Cause} {f : Unit → Reader σ β}
    (h : (require p cause >>= f) c = .error e c') : e.Bare ∨ p ∧ f () c = .error e c' := by
  rcases bind_error h with h | ⟨u, c₁, hp, h⟩
  · exact Or.inl ((Fails.require fun _ => .of_cause cause).error h)
  · obtain ⟨hp, hc⟩ := require_ok hp
    rw [hc] at h
    exact Or.inr ⟨hp, h⟩

theorem requireWord_bind_error {n : Nat} {f : Unit → Reader σ β}
    (h : (requireWord n >>= f) c = .error e c') :
    e.Bare ∨ n < Word.modulus ∧ f () c = .error e c' := require_bind_error h

theorem ensureAligned_bind_error {f : Unit → Reader σ β}
    (h : (ensureAligned >>= f) c = .error e c') :
    e.Bare ∨ c.pos % 8 = 0 ∧ f () c = .error e c' := by
  rcases bind_error h with h | ⟨u, c₁, hal, h⟩
  · exact Or.inl ((Fails.ensureAligned fun _ => .of_cause _).error h)
  · obtain ⟨hal, hc⟩ := require_ok hal
    rw [hc] at h
    exact Or.inr ⟨hal, h⟩

theorem ofExcept_bind_error {x : Except Cause α} {f : α → Reader σ β}
    (h : (ofExcept x >>= f) c = .error e c') : e.Bare ∨ ∃ a, f a c = .error e c' := by
  cases x with
  | ok a => exact Or.inr ⟨a, h⟩
  | error cause =>
      cases h
      exact Or.inl (.of_cause cause)

theorem Checks.bind_error {x : Reader σ Unit} {p : Prop} {f : Unit → Reader σ β}
    (hx : Checks x p) (hfails : Fails Failure.Bare x) (h : (x >>= f) c = .error e c') :
    e.Bare ∨ f () c = .error e c' := by
  rcases Reader.bind_error h with h | ⟨u, c₁, hok, h⟩
  · exact Or.inl (hfails.error h)
  · rw [(hx.ok hok).2] at h
    exact Or.inr h

end Reader

namespace Decoder

open Reader (Fails)

variable {σ : Type} {d : Decoder σ} {ctx outer : Context} {c c' : Cursor σ} {f : Failure}

/-! ## Readers that keep nothing -/

theorem requireWord_bare (n : Nat) : Fails Failure.Bare (Reader.requireWord n : Reader σ Unit) :=
  .requireWord (.of_cause _)

theorem finishLeaf_bare (i start : Nat) (payload : Payload) :
    Fails Failure.Bare (finishLeaf i start payload : Reader σ Value) :=
  Fails.pos.bind fun _ => (requireWord_bare _).bind fun _ =>
    (Fails.require fun _ => .of_cause _).bind fun _ => .pure _

theorem readNothing_bare (i : Nat) : Fails Failure.Bare (readNothing i : Reader σ Value) :=
  Fails.pos.bind fun _ => finishLeaf_bare ..

theorem fetch_bare (offset count : Nat) : Fails Failure.Bare (d.fetch offset count) where
  error := fun h => by
    unfold fetch at h
    split at h
    · cases h
    · cases h
      exact .of_cause _
    · cases h
      exact .of_cause _

theorem fetchChunks_bare (offset count : Nat) : ∀ (chunks : Nat) (got : Bytes),
    Fails Failure.Bare (d.fetchChunks offset count chunks got)
  | 0, _ => .pure _
  | chunks + 1, got => by
      unfold fetchChunks
      split
      · refine (fetch_bare ..).bind fun more => ?_
        split
        · exact .pure _
        · exact fetchChunks_bare offset count chunks _
      · exact .pure _

theorem requireRoom_bare (ctx : Context) (pos count : Nat) :
    Fails Failure.Bare (requireRoom ctx pos count : Reader σ Unit) := by
  unfold requireRoom
  split
  · exact .require fun _ => .of_cause _
  · exact .pure _

theorem requireBits_bare (ctx : Context) (pos stop needed : Nat) :
    Fails Failure.Bare (requireBits ctx pos stop needed : Reader σ Unit) := by
  unfold requireBits
  split
  · exact .require fun _ => .of_cause _
  · exact .pure _

theorem takeBits_bare (ctx : Context) (count : Nat) :
    Fails Failure.Bare (d.takeBits ctx count) :=
  Fails.pos.bind fun _ => (requireWord_bare _).bind fun _ => (requireBits_bare ..).bind fun _ =>
    (fetch_bare ..).bind fun _ => (Fails.require fun _ => .of_cause _).bind fun _ =>
      (Fails.moveTo _).bind fun _ => .pure _

theorem scan_bare (terminator : Bytes) (offset cap : Nat) : ∀ (windows : Nat) (text : Bytes),
    Fails Failure.Bare (d.scan terminator offset cap windows text)
  | 0, _ => .pure _
  | windows + 1, text => by
      unfold scan
      dsimp only
      refine (Fails.require fun _ => .of_cause _).bind fun _ => ?_
      split
      · exact .pure _
      · refine (fetch_bare ..).bind fun got => ?_
        split
        · exact (requireWord_bare _).bind fun _ => .pure _
        · refine (requireWord_bare _).bind fun _ => ?_
          split
          · exact .pure _
          · exact scan_bare terminator offset cap windows _

theorem takeTerminated_bare (ctx : Context) (terminator : Bytes) (max : Option Nat) :
    Fails Failure.Bare (d.takeTerminated ctx terminator max) :=
  Fails.pos.bind fun _ => (scan_bare ..).bind fun _ =>
    (Fails.require fun _ => .of_cause _).bind fun _ => (requireWord_bare _).bind fun _ =>
      (Fails.moveTo _).bind fun _ => .pure _

theorem takeDelimited_bare (ctx : Context) (i : Nat) (terminator : Bytes) :
    Fails Failure.Bare (d.takeDelimited ctx i terminator) :=
  .ofExcept_bind (fun _ _ => .of_cause _) fun _ _ => takeTerminated_bare ..

theorem runScript_bare (request : ScriptRequest) : Fails Failure.Bare (d.runScript request) where
  error := fun h => by
    unfold runScript at h
    split at h
    · cases h
    · cases h
      exact .of_cause _

theorem acceptScript_bare (ctx : Context) (i start : Nat) (out : ScriptValue) :
    Fails Failure.Bare (d.acceptScript ctx i start out) := by
  have hinside : ∀ stop, Fails Failure.Bare
      (requireInside ctx start out.length stop : Reader σ Unit) := by
    intro stop
    unfold requireInside
    split
    · exact .require fun _ => .of_cause _
    · exact .pure _
  have hdata : ∀ size stop, Fails Failure.Bare
      (requireData size (start / 8) out.length stop : Reader σ Unit) := by
    intro size stop
    unfold requireData
    split
    · exact .require fun _ => .of_cause _
    · exact .pure _
  unfold acceptScript
  split
  · exact .fail (.of_cause _)
  · refine (hinside _).bind fun _ => Fails.get_bind fun _ => ?_
    exact (hdata _ _).bind fun _ => (requireWord_bare _).bind fun _ =>
      (Fails.moveTo _).bind fun _ => finishLeaf_bare ..

theorem readCustom_bare (ctx : Context) (i : Nat) (body : CustomBody) :
    Fails Failure.Bare (d.readCustom ctx i body) := by
  unfold readCustom
  refine (Fails.ensureAligned fun _ => .of_cause _).bind fun _ => ?_
  split
  · exact .fail (.of_cause _)
  · exact Fails.pos.bind fun _ => .ofExcept_bind (fun _ _ => .of_cause _) fun _ _ =>
      (runScript_bare _).bind fun _ => acceptScript_bare ..

/-! ## Fields -/

/-- How a field fails. -/
inductive FieldFails (d : Decoder σ) (ctx : Context) (i : Nat) (c : Cursor σ) (f : Failure) :
    Prop where
  | bare : f.Bare → FieldFails d ctx i c f
  /-- Bytes are missing, perhaps after some that were taken already. -/
  | short {c₁ c₂ : Cursor σ} {count : Nat} {bytes : Bytes} : Intake d ctx c c₁ → c₁.pos % 8 = 0 →
      d.fetchChunks (c₁.pos / 8) count (count / chunk + 1) #[] c₁ = .ok bytes c₂ →
      f = shortfall i (c₁.pos / 8) count bytes → FieldFails d ctx i c f
  /-- The field is there, but it is not accepted. -/
  | refused {v : Value} {c₁ : Cursor σ} : FieldRead d ctx i c v c₁ → f.path = [] →
      f.salvage = some v → FieldFails d ctx i c f

theorem take_error {i count : Nat} (h : d.take ctx i count c = .error f c') :
    f.Bare ∨ c.pos % 8 = 0 ∧ ∃ bytes c₂,
      d.fetchChunks (c.pos / 8) count (count / chunk + 1) #[] c = .ok bytes c₂ ∧
      f = shortfall i (c.pos / 8) count bytes := by
  unfold take at h
  rcases Reader.ensureAligned_bind_error h with hbare | ⟨hal, h⟩
  · exact Or.inl hbare
  rw [Reader.pos_bind] at h
  rcases (requireRoom_checks ..).bind_error (requireRoom_bare ..) h with hbare | h
  · exact Or.inl hbare
  rcases Reader.bind_error h with h | ⟨bytes, c₂, hfetch, h⟩
  · exact Or.inl ((fetchChunks_bare ..).error h)
  · split at h
    · cases h
      exact Or.inr ⟨hal, bytes, _, hfetch, rfl⟩
    · rcases Reader.requireWord_bind_error h with hbare | ⟨_, h⟩
      · exact Or.inl hbare
      · cases h

/-- Bytes that are missing at the beginning of a field. -/
theorem FieldFails.of_take {i count : Nat} (h : d.take ctx i count c = .error f c') :
    FieldFails d ctx i c f := by
  rcases take_error h with hbare | ⟨hal, bytes, c₂, hfetch, hf⟩
  · exact .bare hbare
  · exact .short .nothing hal hfetch hf

/-- A field that is made and then not accepted. -/
theorem FieldFails.of_match {i : Nat} {payload : Payload} {accepts : Value → Bool} {c₁ : Cursor σ}
    (htake : Intake d ctx c c₁)
    (h : (finishLeaf i c.pos payload >>= fun v => d.requireMatch i (accepts v) v) c₁ =
      .error f c') :
    FieldFails d ctx i c f := by
  rcases Reader.bind_error h with h | ⟨v, c₂, hleaf, h⟩
  · exact .bare ((finishLeaf_bare ..).error h)
  · obtain ⟨hv, _, hle, hword⟩ := finishLeaf_ok hleaf
    unfold requireMatch at h
    split at h
    · cases h
      exact .refused ⟨htake, hle, hword, payload, hv⟩ rfl rfl
    · cases h

theorem takeInteger_error {i bits : Nat} {big : Bool}
    (h : d.takeInteger ctx i bits big c = .error f c') : FieldFails d ctx i c f := by
  unfold takeInteger at h
  rcases Reader.require_bind_error h with hbare | ⟨_, h⟩
  · exact .bare hbare
  rw [Reader.pos_bind] at h
  split at h
  · rcases Reader.bind_error h with h | ⟨bytes, c₁, _, h⟩
    · exact .of_take h
    · cases h
  · exact .bare ((takeBits_bare ..).error h)

theorem takeNumber_error {i bits : Nat} {big : Bool}
    (h : d.takeNumber ctx i bits big c = .error f c') : FieldFails d ctx i c f := by
  unfold takeNumber at h
  cases htype : d.document.numberType i with
  | integer =>
      simp only [htype] at h
      unfold readInteger at h
      rcases Reader.bind_error h with h | ⟨raw, c₁, _, h⟩
      · exact takeInteger_error h
      · cases h
  | float =>
      simp only [htype] at h
      unfold readFloat at h
      rcases Reader.require_bind_error h with hbare | ⟨_, h⟩
      · exact .bare hbare
      rcases Reader.bind_error h with h | ⟨bytes, c₁, _, h⟩
      · exact .of_take h
      · cases h

theorem readNumber_error {i : Nat} {body : NumberBody}
    (h : d.readNumber ctx i body c = .error f c') : FieldFails d ctx i c f := by
  unfold readNumber at h
  rw [Reader.pos_bind] at h
  rcases Reader.ofExcept_bind_error h with hbare | ⟨bits, h⟩
  · exact .bare hbare
  rcases Reader.ofExcept_bind_error h with hbare | ⟨big, h⟩
  · exact .bare hbare
  rcases Reader.bind_error h with h | ⟨payload, c₁, htake, h⟩
  · exact takeNumber_error h
  · exact .of_match (takeNumber_ok htake) h

theorem readOffset_error {i : Nat} (h : d.readOffset ctx i c = .error f c') :
    FieldFails d ctx i c f := by
  unfold readOffset at h
  rw [Reader.pos_bind] at h
  rcases Reader.ofExcept_bind_error h with hbare | ⟨bits, h⟩
  · exact .bare hbare
  rcases Reader.ofExcept_bind_error h with hbare | ⟨big, h⟩
  · exact .bare hbare
  rcases Reader.bind_error h with h | ⟨raw, c₁, _, h⟩
  · exact takeInteger_error h
  · exact .bare ((finishLeaf_bare ..).error h)

theorem takeString_error {i : Nat} {body : StringBody} {encoding : Option Text.Encoding}
    (h : d.takeString ctx i body encoding c = .error f c') : FieldFails d ctx i c f := by
  unfold takeString at h
  cases htype : d.document.stringType i with
  | fixedLength =>
      simp only [htype] at h
      unfold takeFixed at h
      rcases Reader.ofExcept_bind_error h with hbare | ⟨length, h⟩
      · exact .bare hbare
      rcases Reader.bind_error h with h | ⟨bytes, c₁, _, h⟩
      · exact .of_take h
      · cases h
  | pascal =>
      simp only [htype] at h
      unfold takeCounted at h
      rcases Reader.ofExcept_bind_error h with hbare | ⟨width, h⟩
      · exact .bare hbare
      rcases Reader.require_bind_error h with hbare | ⟨_, h⟩
      · exact .bare hbare
      rcases Reader.ofExcept_bind_error h with hbare | ⟨big, h⟩
      · exact .bare hbare
      rcases Reader.bind_error h with h | ⟨count, c₁, hcount, h⟩
      · exact .of_take h
      · -- the number of bytes is there, and what is missing comes after it
        rcases take_error h with hbare | ⟨hal, bytes, c₂, hfetch, hf⟩
        · exact .bare hbare
        · exact .short (.bytes hcount) hal hfetch hf
  | zeroTerminated =>
      simp only [htype] at h
      exact .bare ((takeDelimited_bare ..).error h)
  | delimiterTerminated =>
      simp only [htype] at h
      exact .bare ((takeDelimited_bare ..).error h)

theorem readString_error {i : Nat} {body : StringBody}
    (h : d.readString ctx i body c = .error f c') : FieldFails d ctx i c f := by
  unfold readString at h
  rcases Reader.ensureAligned_bind_error h with hbare | ⟨hal, h⟩
  · exact .bare hbare
  rw [Reader.pos_bind] at h
  rcases Reader.bind_error h with h | ⟨bytes, c₁, htake, h⟩
  · exact takeString_error h
  rcases Reader.ofExcept_bind_error h with hbare | ⟨text, h⟩
  · exact .bare hbare
  · exact .of_match (takeString_ok hal htake) h

theorem readBinary_error {i : Nat} {body : BinaryBody}
    (h : d.readBinary ctx i body c = .error f c') : FieldFails d ctx i c f := by
  unfold readBinary at h
  rw [Reader.pos_bind] at h
  rcases Reader.ofExcept_bind_error h with hbare | ⟨length, h⟩
  · exact .bare hbare
  rcases Reader.bind_error h with h | ⟨bytes, c₁, htake, h⟩
  · exact .of_take h
  · exact .of_match (.bytes htake) h

theorem readTarget_error {read : ElementReader σ} {i : Nat} {target : Option Nat} {attr : String}
    (h : d.readTarget read ctx i target attr c = .error f c') :
    f.Bare ∨ ∃ s body, target.bind d.document.structAt? = some (s, body) ∧
      d.readStructure read ctx i s body c = .error f c' := by
  unfold readTarget at h
  cases target with
  | none =>
      cases h
      exact Or.inl (.of_cause _)
  | some t =>
      simp only at h
      cases hbody : (d.document.element t).body with
      | struct body =>
          simp only [hbody] at h
          refine Or.inr ⟨t, body, ?_, h⟩
          simp only [Option.bind_some, Document.structAt?, hbody]
      | _ =>
          simp only [hbody] at h
          cases h
          exact Or.inl (.of_cause _)

/-- An element fails as a structure or as a field. -/
theorem readBody_error {read : ElementReader σ} {i : Nat}
    (h : d.readBody read ctx i c = .error f c') :
    (∃ s body, d.document.structureOf? i = some (s, body) ∧
      d.readStructure read ctx i s body c = .error f c') ∨ FieldFails d ctx i c f := by
  unfold readBody at h
  unfold Document.structureOf?
  cases hbody : (d.document.element i).body with
  | struct body =>
      simp only [hbody] at h
      exact Or.inl ⟨i, body, rfl, h⟩
  | number body =>
      simp only [hbody] at h
      exact Or.inr (readNumber_error h)
  | string body =>
      simp only [hbody] at h
      exact Or.inr (readString_error h)
  | binary body =>
      simp only [hbody] at h
      exact Or.inr (readBinary_error h)
  | offset body =>
      simp only [hbody] at h
      exact Or.inr (readOffset_error h)
  | structRef body =>
      simp only [hbody] at h
      split at h
      · exact Or.inr (.bare ((readNothing_bare _).error h))
      · rename_i hdisabled
        rcases readTarget_error h with hbare | ⟨s, b, hs, h⟩
        · exact Or.inr (.bare hbare)
        · exact Or.inl ⟨s, b, by simp only [if_neg hdisabled]; exact hs, h⟩
  | grammarRef body =>
      simp only [hbody] at h
      split at h
      · exact Or.inr (.bare ((readNothing_bare _).error h))
      · rename_i hdisabled
        split at h
        · cases h
          exact Or.inr (.bare (.of_cause _))
        · rename_i hlink
          rcases readTarget_error h with hbare | ⟨s, b, hs, h⟩
          · exact Or.inr (.bare hbare)
          · refine Or.inl ⟨s, b, ?_, h⟩
            simp only [if_neg hdisabled, if_neg hlink]
            exact hs
  | custom body =>
      simp only [hbody] at h
      exact Or.inr (.bare ((readCustom_bare ..).error h))
  | script s =>
      simp only [hbody] at h
      exact Or.inr (.bare ((readNothing_bare _).error h))
  | padding =>
      simp only [hbody] at h
      cases h
      exact Or.inr (.bare (.of_cause _))

/-! ## Structures -/

/-- A property of the progress of a structure that is kept when its end is settled, by one more
field, and by a failed attempt to read one. -/
structure Progresses (d : Decoder σ) (read : ElementReader σ) (outer : Context) (i start : Nat)
    (P : Progress σ → Prop) : Prop where
  settles : ∀ {last : Bool} {p p' : Progress σ}, P p → Settles d outer i start last p p' → P p'
  push : ∀ {p : Progress σ} {child : Nat} {v : Value} {c : Cursor σ}, P p →
    read (p.context outer) child p.cursor = .ok v c →
    P (Progress.push { p with cursor := c } d.document v)
  failed : ∀ {p : Progress σ} {child : Nat} {failure : Failure} {c : Cursor σ}, P p →
    read (p.context outer) child p.cursor = .error failure c →
    P { p with cursor := { c with pos := p.cursor.pos } }

/-- How the fields of a structure fail: for a reason of the structure, or with one of them. -/
inductive FieldsFail (read : ElementReader σ) (outer : Context) (P : Progress σ → Prop)
    (f : Failure) (p' : Progress σ) : Prop where
  | own : f.Bare → P p' → FieldsFail read outer P f p'
  | field {p : Progress σ} {child : Nat} {c : Cursor σ} : P p →
      read (p.context outer) child p.cursor = .error f c → p' = { p with cursor := c } →
      FieldsFail read outer P f p'

theorem settle_bare {i start : Nat} {last : Bool} {p p' : Progress σ}
    (h : d.settle outer i start last p = .error f p') : f.Bare ∧ p' = p := by
  unfold settle at h
  split at h
  · split at h
    · cases h
    · split at h
      · cases h
      · cases h
        exact ⟨.of_cause _, rfl⟩
    · split at h
      · cases h
      · cases h
        exact ⟨.of_cause _, rfl⟩
  · cases h

theorem bound_bare {e : Expression} {p p' : Progress σ} (h : d.bound outer e p = .error f p') :
    f.Bare ∧ p' = p := by
  unfold bound at h
  split at h
  · cases h
  · cases h
    exact ⟨.of_cause _, rfl⟩

section

variable {read : ElementReader σ} {i start : Nat} {P : Progress σ → Prop}
  (hP : Progresses d read outer i start P)
include hP

/-- An attempt that is one more field or none. -/
theorem Progresses.attempt {child : Nat} {enough : Bool} {a : Attempt} {p p' : Progress σ}
    (hp : P p) (h : d.attempt read outer i start child enough p = .ok a p') : P p' := by
  rcases attempt_ok h with ⟨v, c, hread, hsettle, _⟩ | ⟨_, _, failure, c, hread, hp'⟩
  · exact hP.settles (hP.push hp hread) hsettle
  · rw [hp']
    exact hP.failed hp hread

theorem attempt_error {child : Nat} {enough : Bool} {p p' : Progress σ} (hp : P p)
    (h : d.attempt read outer i start child enough p = .error f p') :
    FieldsFail read outer P f p' := by
  unfold attempt at h
  dsimp only at h
  split at h
  · -- the instance is there, but now the end of the structure is wrong
    rename_i v c hread
    split at h
    · cases h
    · rename_i f₁ p₁ hsettle
      cases h
      obtain ⟨hbare, hp₁⟩ := settle_bare hsettle
      rw [hp₁]
      exact .own hbare (hP.push hp hread)
  · -- the instance is not there, and is needed
    rename_i f₁ c hread
    split at h
    · cases h
    · cases h
      exact .field hp hread rfl

theorem readInstances_error {child : Nat} {least : Int} : ∀ (allowed count : Nat)
    {p p' : Progress σ}, P p →
    d.readInstances read outer i start child least allowed count p = .error f p' →
    FieldsFail read outer P f p'
  | 0, count, p, p', _, h => by cases h
  | allowed + 1, count, p, p', hp, h => by
      unfold readInstances at h
      split at h
      · cases h
      · split at h
        · cases h
        · rename_i p₁ hmore
          have hp₁ := hP.attempt hp hmore
          split at h
          · exact readInstances_error allowed (count + 1) hp₁ h
          · -- the instances cannot be counted
            cases h
            exact .own (.of_cause _) hp₁
        · rename_i f₁ p₁ hattempt
          cases h
          exact attempt_error hP hp hattempt

theorem Progresses.readInstances {child allowed count : Nat} {least : Int} {p p' : Progress σ}
    {u : Unit} (hp : P p)
    (h : d.readInstances read outer i start child least allowed count p = .ok u p') : P p' := by
  obtain ⟨xs, hrepeated, _⟩ := readInstances_ok _ _ h
  refine hrepeated.invariant ?_ ?_ hp
  · intro p p₁ v c hp _ hread hsettle
    exact hP.settles (hP.push hp hread) hsettle
  · intro p failure c hp hread
    exact hP.failed hp hread

theorem Progresses.readElements {children : List Nat} {p p' : Progress σ} {u : Unit} (hp : P p)
    (h : d.readElements read outer i start children p = .ok u p') : P p' := by
  obtain ⟨ts, hturns, _⟩ := readElements_ok _ h
  refine hturns.invariant ?_ ?_ hp
  · intro p p₁ child v c hp _ hread hsettle
    exact hP.settles (hP.push hp hread) hsettle
  · intro p child failure c hp hread
    exact hP.failed hp hread

theorem Progresses.readFields {children : List Nat} {p p' : Progress σ} {u : Unit} (hp : P p)
    (h : d.readFields read outer i start children p = .ok u p') : P p' := by
  unfold Decoder.readFields at h
  obtain ⟨_, p₀, hopened, h⟩ := Reader.bind_ok h
  obtain ⟨_, p₁, hread, hclosed⟩ := Reader.bind_ok h
  exact hP.settles (hP.readElements (hP.settles hp (settle_ok hopened)) hread) (settle_ok hclosed)

theorem readElements_error : ∀ (children : List Nat) {p p' : Progress σ}, P p →
    d.readElements read outer i start children p = .error f p' → FieldsFail read outer P f p'
  | [], p, p', _, h => by cases h
  | child :: rest, p, p', hp, h => by
      unfold readElements at h
      rw [Reader.get_bind] at h
      split at h
      · cases h
      · rcases Reader.bind_error h with h | ⟨least, p₁, hleast, h⟩
        · obtain ⟨hbare, hp'⟩ := bound_bare h
          rw [hp']
          exact .own hbare hp
        rw [(bound_ok hleast).2] at h
        rcases Reader.bind_error h with h | ⟨most, p₂, hmost, h⟩
        · obtain ⟨hbare, hp'⟩ := bound_bare h
          rw [hp']
          exact .own hbare hp
        rw [(bound_ok hmost).2] at h
        rcases Reader.bind_error h with h | ⟨u, p₃, hinst, h⟩
        · exact readInstances_error hP _ _ hp h
        · exact readElements_error rest (hP.readInstances hp hinst) h

theorem readFields_error {children : List Nat} {p p' : Progress σ} (hp : P p)
    (h : d.readFields read outer i start children p = .error f p') :
    FieldsFail read outer P f p' := by
  unfold readFields at h
  rcases Reader.bind_error h with h | ⟨u, p₀, hopened, h⟩
  · obtain ⟨hbare, rfl⟩ := settle_bare h
    exact .own hbare hp
  have hp₀ := hP.settles hp (settle_ok hopened)
  rcases Reader.bind_error h with h | ⟨u, p₁, hread, h⟩
  · exact readElements_error hP _ hp₀ h
  · obtain ⟨hbare, rfl⟩ := settle_bare h
    exact .own hbare (hP.readElements hp₀ hread)

end

theorem requireOuter_bare (outer : Context) (pos stop : Nat) :
    Fails Failure.Bare (requireOuter outer pos stop : Reader σ Unit) := by
  unfold requireOuter
  split
  · exact .require fun _ => .of_cause _
  · exact .pure _

theorem requireStop_bare (pos stop : Nat) : Fails Failure.Bare (d.requireStop pos stop) := by
  unfold requireStop
  refine Fails.get_bind fun c => ?_
  split
  · exact .require fun _ => .of_cause _
  · refine (requireWord_bare _).bind fun _ => ?_
    split
    · exact (Fails.require fun _ => .of_cause _).bind fun _ => (fetch_bare ..).bind fun _ =>
        .require fun _ => .of_cause _
    · exact .pure _

theorem fetch_stands (pos offset count : Nat) :
    Reader.Keeps (fun c : Cursor σ => c.pos = pos) (d.fetch offset count) where
  ok := fun hc h => (fetch_pos h).trans hc
  error := fun hc h => by
    unfold fetch at h
    split at h
    · cases h
    · cases h
      exact hc
    · cases h
      exact hc

theorem requireStop_stands (start pos stop : Nat) :
    Reader.Keeps (fun c : Cursor σ => c.pos = start) (d.requireStop pos stop) := by
  unfold requireStop
  refine Reader.Keeps.get_bind fun c => ?_
  split
  · exact .require _ _
  · refine (Reader.Keeps.requireWord _).bind fun _ => ?_
    split
    · exact (Reader.Keeps.require _ _).bind fun _ => (fetch_stands ..).bind fun _ => .require _ _
    · exact .pure _

/-- The end of a structure fails where its fields end. -/
theorem finish_error {extent : Extent} (h : d.finish outer extent c = .error f c') :
    f.Bare ∧ c'.pos = c.pos := by
  have hopen :
      Fails Failure.Bare (Reader.ensureAligned >>= fun _ => pure [] : Reader σ (List Value)) :=
    (Fails.ensureAligned fun _ => .of_cause _).bind fun _ => .pure _
  have hstands : Reader.Keeps (fun c₁ : Cursor σ => c₁.pos = c.pos)
      (Reader.ensureAligned >>= fun _ => pure [] : Reader σ (List Value)) :=
    Reader.Keeps.ensureAligned.bind fun _ => .pure _
  cases extent with
  | pending => exact ⟨hopen.error h, hstands.error rfl h⟩
  | unbounded => exact ⟨hopen.error h, hstands.error rfl h⟩
  | fixed stop =>
      simp only [finish] at h
      rw [Reader.pos_bind] at h
      -- no check moves the cursor, and only after the last of them it goes to the end
      have hword (n : Nat) : Reader.Keeps (fun c₁ : Cursor σ => c₁.pos = c.pos)
          (Reader.requireWord n) := .requireWord n
      rcases Reader.bind_error h with h | ⟨u, c₁, hgap, h⟩
      · exact ⟨(requireWord_bare _).error h, (hword _).error rfl h⟩
      rw [(Reader.require_ok hgap).2] at h
      rcases Reader.bind_error h with h | ⟨u, c₁, houter, h⟩
      · exact ⟨(requireOuter_bare ..).error h,
          ((requireOuter_checks ..).keeps (J := fun c₁ => c₁.pos = c.pos)).error rfl h⟩
      rw [((requireOuter_checks ..).ok houter).2] at h
      rcases Reader.bind_error h with h | ⟨u, c₂, hstop, h⟩
      · exact ⟨(requireStop_bare ..).error h, (requireStop_stands ..).error rfl h⟩
      have hc₂ := (requireStop_stands c.pos ..).ok rfl hstop
      rcases Reader.bind_error h with h | ⟨u, c₃, _, h⟩
      · exact ⟨(requireWord_bare _).error h, (hword _).error hc₂ h⟩
      · cases h

theorem finishStructure_bare (label start : Nat) (children : List Value) :
    Fails Failure.Bare (finishStructure label start children : Reader σ Value) :=
  Fails.pos.bind fun _ => (requireWord_bare _).bind fun _ => .pure _

/-- A structure fails before its first field, at its end, or with its fields. -/
theorem readStructure_error {read : ElementReader σ} {label i : Nat} {body : StructBody}
    {P : Progress σ → Prop} (hP : Progresses d read outer i c.pos P) (hc : P { cursor := c })
    (h : d.readStructure read outer label i body c = .error f c') :
    f.Bare ∨ c.pos % 8 = 0 ∧ ∃ p g,
      f = inStructure label c.pos p.cursor.pos p.frame.values.toList g ∧
      (g.Bare ∧ P p ∨
        d.readFields read outer i c.pos body.elements { cursor := c } = .error g p) := by
  unfold readStructure at h
  rcases Reader.require_bind_error h with hbare | ⟨_, h⟩
  · exact Or.inl hbare
  rcases Reader.ensureAligned_bind_error h with hbare | ⟨hal, h⟩
  · exact Or.inl hbare
  obtain h | ⟨start, c₁, hpos, h⟩ := Reader.bind_error h
  · cases h
  cases hpos
  -- from here on every failure goes through the structure, except that of its own value
  split at h
  · rename_i g p hfields
    cases h
    exact Or.inr ⟨hal, p, g, rfl, Or.inr hfields⟩
  · rename_i p hfields
    dsimp only at h
    split at h
    · exact Or.inl ((finishStructure_bare ..).error h)
    · rename_i g c₁ hfinish
      cases h
      obtain ⟨hbare, hpos⟩ := finish_error hfinish
      rw [hpos]
      exact Or.inr ⟨hal, p, g, rfl, Or.inl ⟨hbare, hP.readFields hc hfields⟩⟩

end Decoder

end BinaryGrammar
