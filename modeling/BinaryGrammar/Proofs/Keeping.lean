import BinaryGrammar.Proofs.Element
import BinaryGrammar.Proofs.Sized

/-!
# The states of a source

A reader touches the source only by fetching from it and by running scripts. So a set of states that
neither of them leaves is not left by any reader, whether it succeeds or fails. The proofs go
through the readers in the order of their definitions.
-/

set_option autoImplicit false

namespace BinaryGrammar.Decoder

open Reader (Keeps)

variable {σ : Type} {I : σ → Prop}

/-! ## Readers that do not fetch -/

theorem moveTo_keeps (pos : Nat) : Keeps (InState I) (Reader.moveTo pos) where
  ok := fun hc h => by cases h; exact hc
  error := fun _ h => by cases h

theorem finishLeaf_keeps (i start : Nat) (payload : Payload) :
    Keeps (InState I) (finishLeaf i start payload) :=
  Keeps.pos.bind fun _ => (Keeps.requireWord _).bind fun _ => (Keeps.require _ _).bind fun _ =>
    .pure _

theorem readNothing_keeps (i : Nat) : Keeps (InState I) (readNothing i) :=
  Keeps.pos.bind fun _ => finishLeaf_keeps ..

variable {d : Decoder σ}

theorem size_keeps : Keeps (InState I) d.size := Keeps.get_bind fun _ => .pure _

theorem requireMatch_keeps (i : Nat) (accepted : Bool) (v : Value) :
    Keeps (InState I) (d.requireMatch i accepted v) := by
  unfold requireMatch
  split
  · exact .throw _
  · exact .pure _

theorem acceptScript_keeps (ctx : Context) (i start : Nat) (out : ScriptValue) :
    Keeps (InState I) (d.acceptScript ctx i start out) := by
  unfold acceptScript
  split
  · exact .fail _
  · exact (requireInside_checks ..).keeps.bind fun _ => size_keeps.bind fun _ =>
      (requireData_checks ..).keeps.bind fun _ => (Keeps.requireWord _).bind fun _ =>
        (moveTo_keeps _).bind fun _ => finishLeaf_keeps ..

/-- Scripts do not leave the states `I` of the source. -/
def ScriptsStay (d : Decoder σ) (I : σ → Prop) : Prop :=
  ∀ (request : ScriptRequest) {s : σ}, I s → I (d.scripts.run d.source request s).2

theorem ScriptsStay.of_empty (h : d.scripts = .empty) : d.ScriptsStay I := by
  intro request s hs
  rw [h]
  exact hs

theorem runScript_keeps (hscripts : d.ScriptsStay I) (request : ScriptRequest) :
    Keeps (InState I) (d.runScript request) := by
  refine ⟨?_, ?_⟩
  · intro c c' out hc h
    have hs := hscripts request hc
    unfold runScript at h
    split at h
    · rename_i v s hrun
      rw [hrun] at hs
      cases h
      exact hs
    · cases h
  · intro c c' failure hc h
    have hs := hscripts request hc
    unfold runScript at h
    split at h
    · cases h
    · rename_i cause s hrun
      rw [hrun] at hs
      cases h
      exact hs

theorem readCustom_keeps (hscripts : d.ScriptsStay I) (ctx : Context) (i : Nat)
    (body : CustomBody) : Keeps (InState I) (d.readCustom ctx i body) := by
  unfold readCustom
  refine Keeps.ensureAligned.bind fun _ => ?_
  split
  · exact .fail _
  · exact Keeps.pos.bind fun _ => (Keeps.ofExcept _).bind fun _ =>
      (runScript_keeps hscripts _).bind fun _ => acceptScript_keeps ..

/-! ## Readers that fetch -/

section

variable (hstays : d.source.Stays I)
include hstays

theorem fetchChunks_keeps (offset count : Nat) : ∀ (chunks : Nat) (got : Bytes),
    Keeps (InState I) (d.fetchChunks offset count chunks got)
  | 0, _ => .pure _
  | chunks + 1, got => by
      unfold fetchChunks
      split
      · refine (fetch_keeps hstays _ _).bind fun more => ?_
        split
        · exact .pure _
        · exact fetchChunks_keeps offset count chunks _
      · exact .pure _

theorem take_keeps (ctx : Context) (i count : Nat) : Keeps (InState I) (d.take ctx i count) := by
  unfold take
  refine Keeps.ensureAligned.bind fun _ => Keeps.pos.bind fun pos => ?_
  refine (requireRoom_checks ..).keeps.bind fun _ =>
    (fetchChunks_keeps hstays ..).bind fun bytes => ?_
  split
  · exact .throw _
  · exact (Keeps.requireWord _).bind fun _ => (moveTo_keeps _).bind fun _ => .pure _

theorem takeBits_keeps (ctx : Context) (count : Nat) : Keeps (InState I) (d.takeBits ctx count) :=
  Keeps.pos.bind fun _ => (Keeps.requireWord _).bind fun _ =>
    (requireBits_checks ..).keeps.bind fun _ => (fetch_keeps hstays ..).bind fun _ =>
      (Keeps.require _ _).bind fun _ => (moveTo_keeps _).bind fun _ => .pure _

theorem takeInteger_keeps (ctx : Context) (i bits : Nat) (big : Bool) :
    Keeps (InState I) (d.takeInteger ctx i bits big) := by
  unfold takeInteger
  refine (Keeps.require _ _).bind fun _ => Keeps.pos.bind fun pos => ?_
  split
  · exact (take_keeps hstays ..).bind fun _ => .pure _
  · exact takeBits_keeps hstays ..

theorem scan_keeps (terminator : Bytes) (offset cap : Nat) : ∀ (windows : Nat) (text : Bytes),
    Keeps (InState I) (d.scan terminator offset cap windows text)
  | 0, _ => .pure _
  | windows + 1, text => by
      unfold scan
      dsimp only
      refine (Keeps.require _ _).bind fun _ => ?_
      split
      · exact .pure _
      · refine (fetch_keeps hstays ..).bind fun got => ?_
        split
        · exact (Keeps.requireWord _).bind fun _ => .pure _
        · refine (Keeps.requireWord _).bind fun _ => ?_
          split
          · exact .pure _
          · exact scan_keeps terminator offset cap windows _

theorem takeTerminated_keeps (ctx : Context) (terminator : Bytes) (max : Option Nat) :
    Keeps (InState I) (d.takeTerminated ctx terminator max) :=
  Keeps.pos.bind fun _ => (scan_keeps hstays ..).bind fun _ => (Keeps.require _ _).bind fun _ =>
    (Keeps.requireWord _).bind fun _ => (moveTo_keeps _).bind fun _ => .pure _

theorem takeNumber_keeps (ctx : Context) (i bits : Nat) (big : Bool) :
    Keeps (InState I) (d.takeNumber ctx i bits big) := by
  unfold takeNumber
  split
  · exact (takeInteger_keeps hstays ..).bind fun _ => .pure _
  · exact (Keeps.require _ _).bind fun _ => (take_keeps hstays ..).bind fun _ => .pure _

theorem readNumber_keeps (ctx : Context) (i : Nat) (body : NumberBody) :
    Keeps (InState I) (d.readNumber ctx i body) :=
  Keeps.pos.bind fun _ => (Keeps.ofExcept _).bind fun _ => (Keeps.ofExcept _).bind fun _ =>
    (takeNumber_keeps hstays ..).bind fun _ => (finishLeaf_keeps ..).bind fun _ =>
      requireMatch_keeps ..

theorem readOffset_keeps (ctx : Context) (i : Nat) : Keeps (InState I) (d.readOffset ctx i) :=
  Keeps.pos.bind fun _ => (Keeps.ofExcept _).bind fun _ => (Keeps.ofExcept _).bind fun _ =>
    (takeInteger_keeps hstays ..).bind fun _ => finishLeaf_keeps ..

theorem takeDelimited_keeps (ctx : Context) (i : Nat) (terminator : Bytes) :
    Keeps (InState I) (d.takeDelimited ctx i terminator) :=
  (Keeps.ofExcept _).bind fun _ => takeTerminated_keeps hstays ..

theorem takeString_keeps (ctx : Context) (i : Nat) (body : StringBody)
    (encoding : Option Text.Encoding) :
    Keeps (InState I) (d.takeString ctx i body encoding) := by
  unfold takeString
  split
  · exact (Keeps.ofExcept _).bind fun _ => (take_keeps hstays ..).bind fun _ => .pure _
  · exact (Keeps.ofExcept _).bind fun _ => (Keeps.require _ _).bind fun _ =>
      (Keeps.ofExcept _).bind fun _ => (take_keeps hstays ..).bind fun _ => take_keeps hstays ..
  · exact takeDelimited_keeps hstays ..
  · exact takeDelimited_keeps hstays ..

theorem readString_keeps (ctx : Context) (i : Nat) (body : StringBody) :
    Keeps (InState I) (d.readString ctx i body) :=
  Keeps.ensureAligned.bind fun _ => Keeps.pos.bind fun _ =>
    (takeString_keeps hstays ..).bind fun _ => (Keeps.ofExcept _).bind fun _ =>
      (finishLeaf_keeps ..).bind fun _ => requireMatch_keeps ..

theorem readBinary_keeps (ctx : Context) (i : Nat) (body : BinaryBody) :
    Keeps (InState I) (d.readBinary ctx i body) :=
  Keeps.pos.bind fun _ => (Keeps.ofExcept _).bind fun _ => (take_keeps hstays ..).bind fun _ =>
    (finishLeaf_keeps ..).bind fun _ => requireMatch_keeps ..

theorem requireStop_keeps (pos stop : Nat) : Keeps (InState I) (d.requireStop pos stop) := by
  unfold requireStop
  refine size_keeps.bind fun size => ?_
  split
  · exact .require _ _
  · refine (Keeps.requireWord _).bind fun _ => ?_
    split
    · exact (Keeps.require _ _).bind fun _ => (fetch_keeps hstays ..).bind fun _ => .require _ _
    · exact .pure _

theorem finish_keeps (outer : Context) (extent : Extent) :
    Keeps (InState I) (d.finish outer extent) := by
  cases extent with
  | fixed stop =>
      exact Keeps.pos.bind fun _ => (Keeps.requireWord _).bind fun _ =>
        (requireOuter_checks ..).keeps.bind fun _ => (requireStop_keeps hstays ..).bind fun _ =>
          (Keeps.requireWord _).bind fun _ => (moveTo_keeps _).bind fun _ => .pure _
  | pending => exact Keeps.ensureAligned.bind fun _ => .pure _
  | unbounded => exact Keeps.ensureAligned.bind fun _ => .pure _

end

/-! ## Readers of structures -/

/-- The source of a structure that is being read is in one of the states. -/
def FieldsInState (I : σ → Prop) (p : Progress σ) : Prop := InState I p.cursor

theorem settle_keeps (outer : Context) (i start : Nat) (last : Bool) :
    Keeps (FieldsInState I) (d.settle outer i start last) where
  ok := fun hp h => by
    unfold FieldsInState
    rw [(settle_ok h).cursor]
    exact hp
  error := fun {p p' failure} hp h => by
    unfold settle at h
    split at h
    · split at h
      · cases h
      · split at h
        · cases h
        · cases h; exact hp
      · split at h
        · cases h
        · cases h; exact hp
    · cases h

theorem bound_keeps (outer : Context) (e : Expression) :
    Keeps (FieldsInState I) (d.bound outer e) where
  ok := fun hp h => by
    unfold bound at h
    split at h
    · cases h; exact hp
    · cases h
  error := fun hp h => by
    unfold bound at h
    split at h
    · cases h
    · cases h; exact hp

section

variable {read : ElementReader σ} (hread : ∀ ctx i, Keeps (InState I) (read ctx i))
include hread

theorem attempt_keeps (outer : Context) (i start child : Nat) (enough : Bool) :
    Keeps (FieldsInState I) (d.attempt read outer i start child enough) where
  ok := fun {p p' a} hp h => by
    unfold attempt at h
    dsimp only at h
    split at h
    · rename_i v c hok
      have hc : FieldsInState I (Progress.push { p with cursor := c } d.document v) :=
        (hread _ _).ok hp hok
      split at h
      · rename_i p₁ hsettle
        cases h
        exact (settle_keeps (d := d) outer i start false).ok hc hsettle
      · cases h
    · rename_i failure c herror
      split at h
      · cases h
        have hc : InState I c := (hread _ _).error hp herror
        exact hc
      · cases h
  error := fun {p p' failure} hp h => by
    unfold attempt at h
    dsimp only at h
    split at h
    · rename_i v c hok
      have hc : FieldsInState I (Progress.push { p with cursor := c } d.document v) :=
        (hread _ _).ok hp hok
      split at h
      · cases h
      · rename_i p₁ hsettle
        cases h
        exact (settle_keeps (d := d) outer i start false).error hc hsettle
    · rename_i failure c herror
      split at h
      · cases h
      · cases h
        exact (hread _ _).error hp herror

theorem readInstances_keeps (outer : Context) (i start child : Nat) (least : Int) :
    ∀ allowed count : Nat,
    Keeps (FieldsInState I) (d.readInstances read outer i start child least allowed count)
  | 0, _ => .pure _
  | allowed + 1, count => by
      have hattempt := attempt_keeps (d := d) hread outer i start child (least ≤ count)
      have hrest := readInstances_keeps outer i start child least allowed (count + 1)
      refine ⟨?_, ?_⟩
      · intro p p' u hp h
        unfold readInstances at h
        split at h
        · cases h; exact hp
        · split at h
          · rename_i p₁ hdone
            cases h
            exact hattempt.ok hp hdone
          · rename_i p₁ hmore
            split at h
            · exact hrest.ok (hattempt.ok hp hmore) h
            · cases h
          · cases h
      · intro p p' failure hp h
        unfold readInstances at h
        split at h
        · cases h
        · split at h
          · cases h
          · rename_i p₁ hmore
            split at h
            · exact hrest.error (hattempt.ok hp hmore) h
            · cases h
              exact hattempt.ok hp hmore
          · rename_i failure₁ p₁ herror
            cases h
            exact hattempt.error hp herror

theorem readElements_keeps (outer : Context) (i start : Nat) : ∀ children : List Nat,
    Keeps (FieldsInState I) (d.readElements read outer i start children)
  | [] => .pure _
  | child :: rest => by
      unfold readElements
      refine Keeps.get_bind fun p => ?_
      split
      · exact .pure _
      · exact (bound_keeps ..).bind fun _ => (bound_keeps ..).bind fun _ =>
          (readInstances_keeps hread ..).bind fun _ => readElements_keeps outer i start rest

theorem readFields_keeps (outer : Context) (i start : Nat) (children : List Nat) :
    Keeps (FieldsInState I) (d.readFields read outer i start children) :=
  (settle_keeps ..).bind fun _ => (readElements_keeps hread ..).bind fun _ => settle_keeps ..

end

/-! ## Readers of elements -/

section

variable (hstays : d.source.Stays I)
include hstays

omit hstays in
theorem finishStructure_keeps (label start : Nat) (children : List Value) :
    Keeps (InState I) (finishStructure label start children) :=
  Keeps.pos.bind fun _ => (Keeps.requireWord _).bind fun _ => .pure _

theorem readStructure_keeps {read : ElementReader σ}
    (hread : ∀ ctx i, Keeps (InState I) (read ctx i)) (outer : Context) (label i : Nat)
    (body : StructBody) : Keeps (InState I) (d.readStructure read outer label i body) := by
  unfold readStructure
  refine (Keeps.require _ _).bind fun _ => Keeps.ensureAligned.bind fun _ =>
    Keeps.pos.bind fun start => ?_
  have hfields := readFields_keeps (d := d) hread outer i start body.elements
  refine ⟨?_, ?_⟩
  -- the fields are read from a cursor of their own, in the progress of the structure
  · intro c c' v hc h
    dsimp only at h
    split at h
    · cases h
    · rename_i p hok
      have hp : InState I p.cursor := hfields.ok (s := { cursor := c }) hc hok
      split at h
      · rename_i padding c₁ hfinish
        exact (finishStructure_keeps ..).ok ((finish_keeps hstays _ _).ok hp hfinish) h
      · cases h
  · intro c c' failure hc h
    dsimp only at h
    split at h
    · rename_i failure₁ p herror
      cases h
      exact hfields.error (s := { cursor := c }) hc herror
    · rename_i p hok
      have hp : InState I p.cursor := hfields.ok (s := { cursor := c }) hc hok
      split at h
      · rename_i padding c₁ hfinish
        exact (finishStructure_keeps ..).error ((finish_keeps hstays _ _).ok hp hfinish) h
      · rename_i failure₁ c₁ hfinish
        cases h
        exact (finish_keeps hstays _ _).error hp hfinish

theorem readTarget_keeps {read : ElementReader σ}
    (hread : ∀ ctx i, Keeps (InState I) (read ctx i)) (ctx : Context) (i : Nat)
    (target : Option Nat) (attr : String) :
    Keeps (InState I) (d.readTarget read ctx i target attr) := by
  unfold readTarget
  split
  · exact .fail _
  · split
    · exact readStructure_keeps hstays hread ..
    · exact .fail _

theorem readBody_keeps (hscripts : d.ScriptsStay I) {read : ElementReader σ}
    (hread : ∀ ctx i, Keeps (InState I) (read ctx i)) (ctx : Context) (i : Nat) :
    Keeps (InState I) (d.readBody read ctx i) := by
  unfold readBody
  split
  · exact readStructure_keeps hstays hread ..
  · exact readNumber_keeps hstays ..
  · exact readString_keeps hstays ..
  · exact readBinary_keeps hstays ..
  · exact readOffset_keeps hstays ..
  · split
    · exact readNothing_keeps _
    · exact readTarget_keeps hstays hread ..
  · split
    · exact readNothing_keeps _
    · split
      · exact .fail _
      · exact readTarget_keeps hstays hread ..
  · exact readCustom_keeps hscripts ..
  · exact readNothing_keeps _
  · exact .fail _

/-- **No read leaves the states of the source.** -/
theorem readElement_keeps (hscripts : d.ScriptsStay I) : ∀ (levels : Nat) (ctx : Context)
    (i : Nat), Keeps (InState I) (d.readElement levels ctx i)
  | 0, _, _ => .throw _
  | levels + 1, ctx, i => by
      have hbody := readBody_keeps hstays hscripts (readElement_keeps hscripts levels) ctx i
      refine ⟨?_, ?_⟩
      · intro c c' v hc h
        obtain ⟨m, hm, hok⟩ := readElement_ok h
        injection hm with hm
        subst hm
        exact hbody.ok hc hok
      · intro c c' failure hc h
        unfold readElement at h
        split at h
        · cases h
        · rename_i failure₁ c₁ herror
          cases h
          have hc₁ : InState I c₁ := hbody.error hc herror
          exact hc₁

end

end BinaryGrammar.Decoder
