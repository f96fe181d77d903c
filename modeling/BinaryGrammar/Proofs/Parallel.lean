import BinaryGrammar.Proofs.Overflow
import BinaryGrammar.Proofs.Pairing

/-!
# Structures side by side

Two decoders that read the same bytes read the same structures. Their progress is the same but for
its place: the same fields, with the structure ending the same number of bytes after the cursor. So
the same elements have their turns, attempts at instances fail together, and a failure that ends a
repetition on one side ends it on the other. The run of a structure keeps this invariant step by
step, and from it follows what the two runs of an element give.
-/

set_option autoImplicit false

namespace BinaryGrammar

namespace Decoder

variable {σ : Type} {d : Decoder σ} {ctx : Context} {i : Nat}

/-- Only a structure that has a length gets one. -/
theorem extentBits?_some {n : Nat} (h : d.extentBits? ctx i = .ok (some n)) :
    (d.document.length i).isSome := by
  unfold extentBits? at h
  cases hlength : d.document.length i with
  | none =>
      simp only [hlength] at h
      cases h
  | some e => rfl

/-- Reading an element is reading its body, -/
theorem readElement_of_ok {levels : Nat} {c c' : Cursor σ} {v : Value}
    (h : d.readBody (d.readElement levels) ctx i c = .ok v c') :
    d.readElement (levels + 1) ctx i c = .ok v c' := by
  unfold readElement
  rw [h]

/-- and naming the element in a failure. -/
theorem readElement_of_error {levels : Nat} {c c' : Cursor σ} {f : Failure}
    (h : d.readBody (d.readElement levels) ctx i c = .error f c') :
    d.readElement (levels + 1) ctx i c =
      .error (f.within (d.document.element i).name) { c' with pos := c.pos } := by
  unfold readElement
  rw [h]

/-- A reference that leads to no structure. -/
theorem readTarget_none {read : ElementReader σ} {target : Option Nat}
    (h : target.bind d.document.structAt? = none) (attr : String) :
    d.readTarget read ctx i target attr = Reader.fail (.danglingReference attr) := by
  unfold readTarget
  cases target with
  | none => rfl
  | some t =>
      rw [Option.bind_some] at h
      unfold Document.structAt? at h
      dsimp only
      split
      · rename_i body hbody
        rw [hbody] at h
        cases h
      · rfl

theorem FailsAt.of_body {levels : Nat} {c c' : Cursor σ} {f : Failure} (hpath : f.path = [])
    (h : d.readBody (d.readElement levels) ctx i c = .error f c') : d.FailsAt i f.cause := by
  refine ⟨levels + 1, ctx, c, _, _, readElement_of_error h, ?_, rfl⟩
  unfold Failure.within
  rw [hpath]

end Decoder

namespace Pairing

open Decoder (FailsAt ProperExtent Settles)

variable {σ₁ σ₂ : Type} (P : Pairing σ₁ σ₂)

/-! ## Progress side by side -/

/-- The progress of the two decoders in a structure. With `covered` it is known that the fields are
read only where the sources have their bytes in common. -/
structure Abreast (outer : Context) (i start : Nat) (covered : Prop) (p₁ : Progress σ₁)
    (p₂ : Progress σ₂) : Prop where
  cursor : P.Side 0 p₁.cursor p₂.cursor
  frame : p₂.frame = p₁.frame.moved P.shift
  extent : p₂.extent = p₁.extent.moved P.shift
  proper : ProperExtent start p₁.extent
  settled : ∀ stop, p₁.extent = .fixed stop → (P.document.length i).isSome
  covers : covered → P.Covers (p₁.context outer)

/-- Two readers of fields side by side. -/
abbrev Fields {α β : Type} (outer : Context) (i start : Nat) (m : α → β) (own : Prop)
    (r₁ : EStateM.Result Failure (Progress σ₁) α) (r₂ : EStateM.Result Failure (Progress σ₂) β) :
    Prop :=
  P.Outcome (P.Abreast outer i start True) (P.Abreast outer i start False) m own r₁ r₂

/-- Two readers of elements side by side, wherever their bytes are in common. -/
def Readers (read₁ : ElementReader σ₁) (read₂ : ElementReader σ₂) : Prop :=
  ∀ {ctx : Context} {c₁ : Cursor σ₁} {c₂ : Cursor σ₂} (j : Nat), P.Covers ctx → P.Side 0 c₁ c₂ →
    P.Reads 0 (Value.moved P.shift) False (read₁ ctx j c₁) (read₂ (ctx.moved P.shift) j c₂)

variable {P}

/-- Surroundings inside are not larger. -/
theorem Covers.inner {outer : Context} {p p' : Progress σ₁} (h : P.Covers (p.context outer))
    (hsame : p.extent = .pending ∨ p'.extent = p.extent) : P.Covers (p'.context outer) := by
  intro hpart
  obtain ⟨limit, hlimit, hle⟩ := h hpart
  rcases hsame with hpending | hsame
  · have houter : outer.limit = some limit := by
      rw [← hlimit, Progress.context_limit_open]
      intro stop hfixed
      rw [hpending] at hfixed
      cases hfixed
    unfold Progress.context
    rw [houter]
    cases p'.extent with
    | pending => exact ⟨limit, rfl, hle⟩
    | unbounded => exact ⟨limit, rfl, hle⟩
    | fixed stop => exact ⟨_, rfl, Nat.le_trans (Nat.min_le_left ..) hle⟩
  · refine ⟨limit, ?_, hle⟩
    rw [← hlimit]
    unfold Progress.context
    rw [hsame]

namespace Abreast

variable {outer : Context} {i start : Nat} {covered : Prop} {p₁ : Progress σ₁} {p₂ : Progress σ₂}
  (hp : P.Abreast outer i start covered p₁ p₂)
include hp

theorem context : p₂.context (outer.moved P.shift) = (p₁.context outer).moved P.shift := by
  rw [Progress.context_eq, Progress.context_eq, hp.frame, hp.extent, Context.enter_moved]

theorem exhausted : p₂.exhausted (outer.moved P.shift) = p₁.exhausted outer := by
  unfold Progress.exhausted
  rw [hp.context, hp.cursor.pos, Context.exhausted_moved]

/-- It may be forgotten where the fields are read. -/
theorem uncovered : P.Abreast outer i start False p₁ p₂ :=
  { hp with covers := False.elim }

theorem of_covers (hcovers : P.Covers (p₁.context outer)) : P.Abreast outer i start True p₁ p₂ :=
  { hp with covers := fun _ => hcovers }

/-- The cursors are moved. -/
theorem moved {c₁ : Cursor σ₁} {c₂ : Cursor σ₂} (hc : P.Side 0 c₁ c₂) :
    P.Abreast outer i start covered { p₁ with cursor := c₁ } { p₂ with cursor := c₂ } :=
  { hp with cursor := hc }

/-- An instance is read on both sides. -/
theorem push {c₁ : Cursor σ₁} {c₂ : Cursor σ₂} (hc : P.Side 0 c₁ c₂) (v : Value) :
    P.Abreast outer i start covered (Progress.push { p₁ with cursor := c₁ } P.document v)
      (Progress.push { p₂ with cursor := c₂ } P.document (v.moved P.shift)) where
  cursor := hc
  frame := by
    unfold Progress.push
    rw [Value.element_moved, Frame.push_moved, hp.frame]
  extent := hp.extent
  proper := hp.proper
  settled := hp.settled
  covers := fun h => (hp.covers h).inner (Or.inr rfl)

end Abreast

/-! ## Settling -/

section

variable {outer : Context} {i start : Nat} {covered own : Prop} {p₁ : Progress σ₁}
  {p₂ : Progress σ₂}

/-- The end is settled on both sides, or on neither. -/
theorem settle_alike (own : Prop) (hp : P.Abreast outer i start covered p₁ p₂)
    (last : Bool) :
    P.Outcome (P.Abreast outer i start covered) (P.Abreast outer i start False) id own
      (P.left.settle outer i start last p₁)
      (P.right.settle (outer.moved P.shift) i (start + 8 * P.shift) last p₂) := by
  have hproper {p' : Progress σ₁} (h : P.left.settle outer i start last p₁ = .ok () p') :
      ProperExtent start p'.extent := (Decoder.settle_ok h).proper hp.proper
  revert hproper
  unfold Decoder.settle
  rw [hp.extent, hp.context, Decoder.extentBits?_moved,
    show P.right.extentBits? (p₁.context outer) i = P.left.extentBits? (p₁.context outer) i from
      rfl]
  cases hext : p₁.extent with
  | unbounded => exact fun _ => .ok () hp
  | fixed stop => exact fun _ => .ok () hp
  | pending =>
      -- only here something is settled, and a calculation may fail for a place
      have hinner (p' : Progress σ₁) (h : covered) : P.Covers (p'.context outer) :=
        (hp.covers h).inner (Or.inl hext)
      dsimp only [Extent.moved]
      cases hbits : P.left.extentBits? (p₁.context outer) i with
      | error cause =>
          intro _
          dsimp only
          split
          · exact .ok () hp
          · exact .error (.of_calculated ((P.left.extentBits?_calculates _ i).error hbits))
              hp.uncovered
      | ok bits =>
          cases bits with
          | none =>
              exact fun hproper => .ok () ⟨hp.cursor, hp.frame, rfl, hproper rfl, nofun, hinner _⟩
          | some length =>
              dsimp only
              rw [hp.cursor.pos]
              rcases Decoder.stopOf_moved P.shift start p₁.cursor.pos length with
                ⟨stop, h₁, h₂⟩ | ⟨cause, h₁, h₂⟩ | ⟨hshift, h₂⟩
              · rw [h₁, h₂]
                exact fun hproper => .ok () ⟨hp.cursor, hp.frame, rfl, hproper rfl,
                  fun _ _ => Decoder.extentBits?_some hbits, hinner _⟩
              · rw [h₁, h₂]
                exact fun _ => .error (.of_cause cause) hp.uncovered
              · rw [h₂]
                exact fun _ => .tooLarge hshift rfl (.of_none rfl) hp.uncovered

theorem bound_alike (hp : P.Abreast outer i start True p₁ p₂) (e : Expression) :
    P.Fields outer i start id own (P.left.bound outer e p₁)
      (P.right.bound (outer.moved P.shift) e p₂) := by
  unfold Decoder.bound
  rw [hp.context, Decoder.evaluate_moved,
    show P.right.evaluate (p₁.context outer) e = P.left.evaluate (p₁.context outer) e from rfl]
  cases heval : P.left.evaluate (p₁.context outer) e with
  | ok n => exact .ok n hp
  | error cause =>
      exact .error (.of_calculated ((P.left.evaluate_calculates _ e).error heval)) hp.uncovered

/-! ## Fields -/

variable {read₁ : ElementReader σ₁} {read₂ : ElementReader σ₂} (hread : P.Readers read₁ read₂)
  {child : Nat}
include hread

/-- Attempts at an instance succeed together and fail together. -/
theorem attempt_alike (hp : P.Abreast outer i start True p₁ p₂) (enough : Bool) :
    P.Fields outer i start id own (P.left.attempt read₁ outer i start child enough p₁)
      (P.right.attempt read₂ (outer.moved P.shift) i (start + 8 * P.shift) child enough p₂) := by
  have hinstance := hread child (hp.covers trivial) hp.cursor
  unfold Decoder.attempt
  dsimp only
  rw [hp.context]
  generalize read₁ (p₁.context outer) child p₁.cursor = r₁ at hinstance ⊢
  generalize read₂ ((p₁.context outer).moved P.shift) child p₂.cursor = r₂ at hinstance ⊢
  cases hinstance with
  | @ok v c₁ c₂ hc =>
      have hsettle := settle_alike own (hp.push hc v) false
      have hdone : c₂.pos = p₂.cursor.pos ↔ c₁.pos = p₁.cursor.pos := by
        rw [hc.pos, hp.cursor.pos]
        omega
      dsimp only
      rw [show P.left.document = P.document from rfl, show P.right.document = P.document from rfl]
      generalize P.left.settle outer i start false
        (Progress.push { p₁ with cursor := c₁ } P.document v) = r₁ at hsettle ⊢
      generalize P.right.settle (outer.moved P.shift) i (start + 8 * P.shift) false
        (Progress.push { p₂ with cursor := c₂ } P.document (v.moved P.shift)) = r₂ at hsettle ⊢
      cases hsettle with
      | ok _ hp' =>
          dsimp only
          simp only [hdone]
          exact .ok _ hp'
      | error hfail hp' => exact .error hfail hp'
      | tooLarge hshift hcause hpart hp' => exact .tooLarge hshift hcause hpart hp'
  | @error f g c₁ c₂ hfail hc =>
      -- what ends a repetition on one side ends it on the other
      dsimp only
      rw [hfail.endsRepetition]
      split
      · exact .ok _ (hp.moved { hp.cursor with first := hc.first, second := hc.second })
      · exact .error (hfail.imp False.elim) (hp.moved hc).uncovered
  | @tooLarge _ g _ _ hshift hcause hpart hc =>
      -- a length that is too large is no reason to end a repetition, so that it comes out
      have hends : (enough && g.cause.endsRepetition) = false := by
        rw [hcause, Bool.and_eq_false_iff]
        exact Or.inr rfl
      dsimp only
      rw [hends]
      exact .tooLarge hshift hcause hpart (hp.moved hc).uncovered

theorem readInstances_alike {least : Int} : ∀ (allowed count : Nat) {p₁ : Progress σ₁}
    {p₂ : Progress σ₂}, P.Abreast outer i start True p₁ p₂ →
    P.Fields outer i start id own
      (P.left.readInstances read₁ outer i start child least allowed count p₁)
      (P.right.readInstances read₂ (outer.moved P.shift) i (start + 8 * P.shift) child least allowed
        count p₂)
  | 0, _, p₁, p₂, hp => .ok () hp
  | allowed + 1, count, p₁, p₂, hp => by
      by_cases hroom : p₁.exhausted outer
      · rw [Decoder.readInstances_exhausted hroom,
          Decoder.readInstances_exhausted (by rw [hp.exhausted]; exact hroom)]
        exact .ok () hp
      · rw [Decoder.readInstances_succ hroom,
          Decoder.readInstances_succ (by rw [hp.exhausted]; exact hroom)]
        refine (attempt_alike hread hp _).bind fun a p₁' p₂' _ hp' => ?_
        cases a with
        | done => exact .ok () hp'
        | more =>
            dsimp only
            by_cases hcount : count + 1 < Word.modulus
            · rw [if_pos hcount, if_pos hcount]
              exact readInstances_alike allowed (count + 1) hp'
            · rw [if_neg hcount, if_neg hcount]
              exact .error .overflow hp'.uncovered

theorem readElements_alike : ∀ (children : List Nat) {p₁ : Progress σ₁} {p₂ : Progress σ₂},
    P.Abreast outer i start True p₁ p₂ →
    P.Fields outer i start id own (P.left.readElements read₁ outer i start children p₁)
      (P.right.readElements read₂ (outer.moved P.shift) i (start + 8 * P.shift) children p₂)
  | [], p₁, p₂, hp => .ok () hp
  | child :: rest, p₁, p₂, hp => by
      unfold Decoder.readElements
      rw [Reader.get_bind, Reader.get_bind]
      by_cases hroom : p₁.exhausted outer
      · rw [if_pos hroom, if_pos (by rw [hp.exhausted]; exact hroom)]
        exact .ok () hp
      · rw [if_neg hroom, if_neg (by rw [hp.exhausted]; exact hroom)]
        exact (bound_alike hp _).bind fun least _ _ _ hp₁ =>
          (bound_alike hp₁ _).bind fun most _ _ _ hp₂ =>
            (readInstances_alike hread _ 0 hp₂).bind fun _ _ _ _ hp₃ =>
              readElements_alike rest hp₃

/-- All fields of a structure, if they are read where the bytes are in common once the end has been
settled for the first time. -/
theorem readFields_alike (own : Prop) (hp : P.Abreast outer i start False p₁ p₂)
    (hcovers : ∀ p, Settles P.left outer i start false p₁ p → P.Covers (p.context outer))
    (children : List Nat) :
    P.Fields outer i start id own (P.left.readFields read₁ outer i start children p₁)
      (P.right.readFields read₂ (outer.moved P.shift) i (start + 8 * P.shift) children p₂) := by
  unfold Decoder.readFields
  refine (settle_alike own hp false).bind fun _ p₁' p₂' hsettle hp' => ?_
  have hcovered := hp'.of_covers (hcovers p₁' (Decoder.settle_ok hsettle))
  exact (readElements_alike hread children hcovered).bind fun _ _ _ _ hp'' =>
    settle_alike own hp'' true

end

/-! ## The end of a structure -/

section

variable {α β : Type} {m : α → β} {own : Prop} {outer : Context} {c₁ : Cursor σ₁} {c₂ : Cursor σ₂}
  (hc : P.Side 0 c₁ c₂)
include hc

theorem requireOuter_alike {stop : Nat} {f : Unit → Reader σ₁ α} {g : Unit → Reader σ₂ β}
    (hf : (∀ limit, outer.limit = some limit → stop ≤ limit) →
      P.Reads 0 m own (f () c₁) (g () c₂)) :
    P.Reads 0 m own ((Decoder.requireOuter outer c₁.pos stop >>= f) c₁)
      ((Decoder.requireOuter (outer.moved P.shift) c₂.pos (stop + 8 * P.shift) >>= g) c₂) := by
  unfold Decoder.requireOuter
  rw [hc.offset, hc.pos]
  cases hlimit : outer.limit with
  | none =>
      simp only [Context.moved, hlimit, Option.map_none]
      refine hf fun limit h => ?_
      rw [hlimit] at h
      cases h
  | some limit =>
      simp only [Context.moved, hlimit, Option.map_some, Nat.add_sub_add_right]
      refine require_alike hc (.overrun (c₁.pos / 8) (Word.bytesOfBits (stop - c₁.pos))
        ((limit - c₁.pos) / 8)) (by omega) fun hle => ?_
      refine hf fun limit' h => ?_
      cases hlimit.symm.trans h
      exact hle

/-- A source that does not tell its size is asked for the last byte of a structure. -/
theorem requireStop_untold {stop : Nat} (hal : stop % 8 = 0) (hword : stop < Word.modulus)
    (huntold : P.accord = .untold) :
    ∃ c₂', P.Side 0 c₁ c₂' ∧ P.right.requireStop c₂.pos (stop + 8 * P.shift) c₂ =
      if stop ≤ 8 * P.reach then .ok () c₂'
      else .error { cause := .endOfInput (stop / 8 - 1 + P.shift) 1 0 } c₂' := by
  have hbase := hc.base
  have hreach := hc.reach
  have hlt := P.reach_lt
  have hnone : P.right.source.size c₂.source = none := by
    have hsizes := P.sizes hc.first hc.second
    rw [huntold] at hsizes
    exact hsizes.2
  -- the next byte is not after the data
  have halign : Word.alignUp c₁.pos < stop → P.base ≤ stop / 8 - 1 := by
    unfold Word.alignUp Word.bytesOfBits
    omega
  unfold Decoder.requireStop
  rw [Decoder.size_bind, hnone]
  dsimp only
  rw [Reader.requireWord_of hc.word₂, hc.pos, Word.alignUp_moved]
  by_cases hgap : Word.alignUp c₁.pos < stop
  · obtain ⟨s₂, hfetch, hs₂⟩ := P.gives₂ 1 hc.second (halign hgap) (by
      have hword' := P.word
      omega) (fun hpart => by rw [huntold] at hpart; cases hpart)
    have hlast : (stop + 8 * P.shift) / 8 - 1 = stop / 8 - 1 + P.shift := by omega
    have hfetched : P.right.fetch (stop / 8 - 1 + P.shift) 1 c₂ =
        .ok (Bytes.slice P.data (stop / 8 - 1) 1) { c₂ with source := s₂ } := by
      unfold Decoder.fetch
      rw [show P.right.source = P.second from rfl, hfetch]
    have hsize : (Bytes.slice P.data (stop / 8 - 1) 1).size ≠ 0 ↔ stop ≤ 8 * P.reach := by
      unfold Bytes.slice reach
      rw [Array.size_extract]
      omega
    refine ⟨{ c₂ with source := s₂ }, { hc with second := hs₂ }, ?_⟩
    rw [if_pos (by omega), Reader.require_of (by omega), hlast, Reader.bind_of_ok hfetched]
    unfold Reader.require
    simp only [hsize]
    split
    · rfl
    · rfl
  · refine ⟨c₂, hc, ?_⟩
    have hle : c₁.pos ≤ Word.alignUp c₁.pos ∧ Word.alignUp c₁.pos ≤ 8 * P.reach := by
      unfold Word.alignUp Word.bytesOfBits
      omega
    rw [if_neg (by omega), if_pos (by omega)]
    rfl

/-- Both sides find the end of a structure in the data, or neither does. -/
theorem requireStop_alike {stop : Nat} (hal : stop % 8 = 0) (hword : stop < Word.modulus)
    (hpart : P.accord = .part → stop ≤ 8 * P.reach) (hown : own) :
    P.Outcome (fun c₁' c₂' => P.Side 0 c₁' c₂' ∧ stop ≤ 8 * P.reach) (P.Side 0) id own
      (P.left.requireStop c₁.pos stop c₁)
      (P.right.requireStop c₂.pos (stop + 8 * P.shift) c₂) := by
  have hsizes : P.accord.Sizes P.reach P.shift (P.left.source.size c₁.source)
      (P.right.source.size c₂.source) := P.sizes hc.first hc.second
  have hmask : Word.mask + 1 = Word.modulus := rfl
  cases haccord : P.accord with
  | part =>
      rw [haccord] at hsizes
      -- both sources go on after the bytes in common
      obtain ⟨m₁, m₂, h₁, h₂, hm₁, hm₂⟩ := hsizes
      have hstop := hpart haccord
      have hfar : stop + 8 * P.shift < Word.modulus := by
        have hword' := P.word
        unfold reach at *
        omega
      unfold Decoder.requireStop
      rw [Decoder.size_bind, Decoder.size_bind, h₁, h₂]
      unfold Reader.require Word.mulSaturating
      dsimp only
      rw [if_pos (by omega), if_pos (by omega)]
      exact .ok () ⟨hc, hstop⟩
  | whole =>
      rw [haccord] at hsizes
      obtain ⟨h₁, h₂⟩ := hsizes
      have hfits : stop + 8 * P.shift ≤ Word.mulSaturating (P.reach + P.shift) 8 ↔
          stop ≤ Word.mulSaturating P.reach 8 := by
        have hword' := P.word
        unfold Word.mulSaturating reach
        omega
      unfold Decoder.requireStop
      rw [Decoder.size_bind, Decoder.size_bind, h₁, h₂]
      unfold Reader.require
      dsimp only
      by_cases hle : stop ≤ Word.mulSaturating P.reach 8
      · rw [if_pos hle, if_pos (hfits.mpr hle)]
        refine .ok () ⟨hc, ?_⟩
        unfold Word.mulSaturating at hle
        omega
      · rw [if_neg hle, if_neg fun h => hle (hfits.mp h), hc.offset, hc.pos, Nat.add_sub_add_right,
          Nat.add_sub_add_right]
        exact .error (.of_cause _) hc
  | untold =>
      rw [haccord] at hsizes
      -- the one compares with a size, the other looks for the last byte
      obtain ⟨c₂', hc', hright⟩ := requireStop_untold hc hal hword haccord
      have hfits : stop ≤ Word.mulSaturating P.reach 8 ↔ stop ≤ 8 * P.reach := by
        unfold Word.mulSaturating
        omega
      rw [hright]
      unfold Decoder.requireStop
      rw [Decoder.size_bind, hsizes.1]
      unfold Reader.require
      dsimp only
      by_cases hle : stop ≤ 8 * P.reach
      · rw [if_pos hle, if_pos (hfits.mpr hle)]
        exact .ok () ⟨hc', hle⟩
      · rw [if_neg hle, if_neg fun h => hle (hfits.mp h)]
        refine .error ⟨rfl, rfl, fun _ => .of_none rfl, Or.inr ⟨haccord, rfl, rfl, ?_⟩⟩ hc'
        exact Or.inl ⟨hown, rfl⟩

end

section

variable {own : Prop} {outer : Context} {label i start : Nat} {p₁ : Progress σ₁} {p₂ : Progress σ₂}

theorem finish_alike (hp : P.Abreast outer i start True p₁ p₂) (hal : start % 8 = 0)
    (hbase : 8 * P.base ≤ start) (hown : (P.document.length i).isSome → own) :
    P.Reads 0 (List.map (Value.moved P.shift)) own (P.left.finish outer p₁.extent p₁.cursor)
      (P.right.finish (outer.moved P.shift) p₂.extent p₂.cursor) := by
  have hc := hp.cursor
  rw [hp.extent]
  cases hext : p₁.extent with
  | pending => exact aligned_alike hc fun _ => .ok [] hc
  | unbounded => exact aligned_alike hc fun _ => .ok [] hc
  | fixed stop =>
      obtain ⟨hle, hword, hwhole⟩ := hp.proper stop hext
      refine pos_alike (word_alike hc ?_ fun _ => requireOuter_alike hc fun hlimit => ?_)
      · rw [hc.pos, Nat.add_sub_add_right]
      -- the surroundings of the last field end with the structure
      have hpart : P.accord = .part → stop ≤ 8 * P.reach := by
        intro hpart
        obtain ⟨limit, hctx, hreach⟩ := hp.covers trivial hpart
        rw [Progress.context_limit_fixed hext] at hctx
        cases houter : outer.limit with
        | none =>
            simp only [houter] at hctx
            cases hctx
            exact hreach
        | some l =>
            have := hlimit l houter
            simp only [houter] at hctx
            cases hctx
            omega
      refine (requireStop_alike hc (by omega) hword hpart
        (hown (hp.settled stop hext))).bind fun _ c₁' c₂' _ hend => ?_
      refine word_alike hend.1 (hc.word_iff (by decide)) fun _ => ?_
      rw [hc.pos, Decoder.paddingBetween_moved]
      have hlast : stop + 7 < Word.modulus := by
        unfold Word.modulus at *
        omega
      exact .ok _ ⟨hend.1.first, hend.1.second, rfl, hlast, Nat.le_trans hbase hle, hend.2,
        Nat.zero_le _⟩

/-- What is salvaged of a structure is the same on both sides. -/
theorem Matching.inStructure {f g : Failure} {pos : Nat} (h : P.Matching own f g)
    (hal : start % 8 = 0) (hstart : start ≤ 8 * P.reach) (hpos : pos ≤ 8 * P.reach) (label : Nat)
    (children : List Value) :
    P.Matching own (Decoder.inStructure label start pos children f)
      (Decoder.inStructure label (start + 8 * P.shift) (pos + 8 * P.shift)
        (children.map (Value.moved P.shift)) g) := by
  have hin : P.shift = 0 ∨ f.Salvaged P.reach ∧ P.reach + P.shift < Word.modulus :=
    (Decidable.em (P.shift = 0)).imp_right fun hshift => ⟨h.salvaged hshift, P.reach_lt⟩
  rcases Decoder.inStructure_moved h.salvage hin label start pos children with
    ⟨hf, hg⟩ | ⟨v, hf, hg⟩
  · rw [hf, hg]
    exact .overflow
  · have hsalvaged (hshift : P.shift ≠ 0) :=
      (h.salvaged hshift).inStructure hal hstart hpos label children
    rw [hf] at hsalvaged
    rw [hf, hg]
    exact ⟨h.path, rfl, hsalvaged, h.cause⟩

/-- A length that is too large is still so when it is seen from a structure around it. -/
theorem inStructure_tooLarge {g : Failure} {pos : Nat} (hshift : P.shift ≠ 0)
    (hcause : g.cause = .malformed .lengthTooLarge) (hpart : g.Salvaged (P.reach + P.shift))
    (hal : start % 8 = 0) (hstart : start ≤ 8 * (P.reach + P.shift))
    (hpos : pos ≤ 8 * (P.reach + P.shift)) (label : Nat) (children : List Value) :
    (Decoder.inStructure label start pos children g).cause = .malformed .lengthTooLarge ∧
      (Decoder.inStructure label start pos children g).Salvaged (P.reach + P.shift) := by
  have hword : 8 * (P.reach + P.shift) + 7 < Word.modulus := by
    have hword := P.word
    unfold reach
    omega
  have htame : g.Tame (P.reach + P.shift) := ⟨by rw [hcause]; exact nofun, hpart⟩
  have hin := htame.inStructure hword hal hstart hpos label children
  refine ⟨?_, hin.salvaged⟩
  rcases Decoder.inStructure_cases label start pos children g with hover | ⟨v, hsame⟩
  · rw [hover] at hin
    exact absurd rfl hin.cause
  · rw [hsame]
    exact hcause

end

/-! ## Elements -/

section

variable {read₁ : ElementReader σ₁} {read₂ : ElementReader σ₂} (hread : P.Readers read₁ read₂)
  {outer ctx : Context} {i : Nat} {c₁ : Cursor σ₁} {c₂ : Cursor σ₂} (hc : P.Side 0 c₁ c₂)
include hread hc

/-- A structure whose fields are read where the bytes are in common. -/
theorem readStructure_alike {label : Nat} {body : StructBody}
    (hs : P.document.structureOf? label = some (i, body))
    (hcovers : ∀ p, Settles P.left outer i c₁.pos false { cursor := c₁ } p →
      P.Covers (p.context outer)) :
    P.Reads 0 (Value.moved P.shift) (P.HasLength label)
      (P.left.readStructure read₁ outer label i body c₁)
      (P.right.readStructure read₂ (outer.moved P.shift) label i body c₂) := by
  unfold Decoder.readStructure
  refine require_alike hc (.unsupported .freeOrder) Iff.rfl fun _ =>
    aligned_alike hc fun hal => pos_alike ?_
  have hopened : P.Abreast outer i c₁.pos False { cursor := c₁ } { cursor := c₂ } :=
    ⟨hc, (Frame.moved_empty _).symm, rfl, nofun, nofun, nofun⟩
  have hfields := readFields_alike hread (P.HasLength label) hopened hcovers
    body.elements
  have hal₂ : (c₁.pos + 8 * P.shift) % 8 = 0 := by omega
  have hright : c₁.pos + 8 * P.shift ≤ 8 * (P.reach + P.shift) := hc.pos ▸ hc.right_le
  dsimp only
  rw [hc.pos]
  generalize P.left.readFields read₁ outer i c₁.pos body.elements { cursor := c₁ } = r₁ at hfields ⊢
  generalize P.right.readFields read₂ (outer.moved P.shift) i (c₁.pos + 8 * P.shift) body.elements
    { cursor := c₂ } = r₂ at hfields ⊢
  have hvalues {covered : Prop} {p₁ : Progress σ₁} {p₂ : Progress σ₂}
      (hp : P.Abreast outer i c₁.pos covered p₁ p₂) : p₂.frame.values.toList =
        p₁.frame.values.toList.map (Value.moved P.shift) := by
    rw [hp.frame, Frame.moved, Array.toList_map]
  -- a failure salvages the fields so far, and these are the same on both sides
  cases hfields with
  | @error f g p₁ p₂ hfail hp =>
      dsimp only
      rw [hvalues hp, hp.cursor.pos]
      exact .error (hfail.inStructure hal hc.reach hp.cursor.reach label _) hp.cursor
  | @tooLarge _ g p₁ p₂ hshift hcause hpart hp =>
      obtain ⟨hcause', hpart'⟩ := inStructure_tooLarge hshift hcause hpart hal₂ hright
        hp.cursor.right_le label p₂.frame.values.toList
      exact .tooLarge hshift hcause' hpart' hp.cursor
  | @ok _ p₁ p₂ hp =>
      have hown : (P.document.length i).isSome → P.HasLength label :=
        fun hlength => ⟨i, body, hs, hlength⟩
      have hfinish := finish_alike hp hal hc.base hown
      dsimp only
      rw [hvalues hp]
      generalize P.left.finish outer p₁.extent p₁.cursor = r₁ at hfinish ⊢
      generalize P.right.finish (outer.moved P.shift) p₂.extent p₂.cursor = r₂ at hfinish ⊢
      cases hfinish with
      | @error f g c₁' c₂' hfail hc' =>
          dsimp only
          rw [hc'.pos]
          exact .error (hfail.inStructure hal hc.reach hc'.reach label _) hc'
      | @tooLarge _ g c₁' c₂' hshift hcause hpart hc' =>
          obtain ⟨hcause', hpart'⟩ := inStructure_tooLarge hshift hcause hpart hal₂ hright
            hc'.right_le label (p₁.frame.values.toList.map (Value.moved P.shift))
          exact .tooLarge hshift hcause' hpart' hc'
      | @ok padding c₁' c₂' hc' =>
          unfold Decoder.finishStructure
          refine pos_alike (word_alike hc' ?_ fun _ => ?_)
          · rw [hc'.pos, Nat.add_sub_add_right]
          · rw [hc'.pos, ← List.map_append, Decoder.structureValue_moved]
            exact .ok _ hc'

omit hread in
/-- An element without fields of its own. -/
theorem readLeaf_alike (hctx : P.Covers ctx) (hs : P.document.structureOf? i = none) :
    P.Reads 0 (Value.moved P.shift) (P.HasLength i) (P.left.readBody read₁ ctx i c₁)
      (P.right.readBody read₂ (ctx.moved P.shift) i c₂) := by
  unfold Document.structureOf? at hs
  unfold Decoder.readBody
  rw [show P.left.document = P.document from rfl, show P.right.document = P.document from rfl]
  cases hbody : (P.document.element i).body with
  | struct body => rw [hbody] at hs; cases hs
  | number body => exact (readNumber_alike hc hctx i body).imp Side.anywhere id
  | string body => exact (readString_alike hc hctx i body).imp Side.anywhere id
  | binary body => exact (readBinary_alike hc hctx i body).imp Side.anywhere id
  | offset body => exact (readOffset_alike hc hctx i).imp Side.anywhere id
  | custom body => exact readCustom_alike hc i body
  | script body => exact readNothing_alike hc i
  | padding => exact fail_placeless_alike hc fun _ => rfl
  | structRef body =>
      simp only [hbody] at hs
      dsimp only
      by_cases hdisabled : body.disabled = some true
      · rw [if_pos hdisabled, if_pos hdisabled]
        exact readNothing_alike hc i
      · rw [if_neg hdisabled] at hs
        rw [if_neg hdisabled, if_neg hdisabled, Decoder.readTarget_none hs,
          Decoder.readTarget_none hs]
        exact fail_placeless_alike hc fun _ => rfl
  | grammarRef body =>
      simp only [hbody] at hs
      dsimp only
      by_cases hdisabled : body.disabled = some true
      · rw [if_pos hdisabled, if_pos hdisabled]
        exact readNothing_alike hc i
      · rw [if_neg hdisabled] at hs
        rw [if_neg hdisabled, if_neg hdisabled]
        by_cases hgrammar : (body.grammar.bind (·.target)).isNone = true
        · rw [if_pos hgrammar, if_pos hgrammar]
          exact fail_placeless_alike hc fun _ => rfl
        · rw [if_neg hgrammar] at hs
          rw [if_neg hgrammar, if_neg hgrammar, Decoder.readTarget_none hs,
            Decoder.readTarget_none hs]
          exact fail_placeless_alike hc fun _ => rfl

theorem readBody_alike (hctx : P.Covers ctx) :
    P.Reads 0 (Value.moved P.shift) (P.HasLength i) (P.left.readBody read₁ ctx i c₁)
      (P.right.readBody read₂ (ctx.moved P.shift) i c₂) := by
  cases hs : P.document.structureOf? i with
  | none => exact readLeaf_alike hc hctx hs
  | some target =>
      obtain ⟨s, body⟩ := target
      rw [Decoder.readBody_of_structure (d := P.left) hs,
        Decoder.readBody_of_structure (d := P.right) hs]
      refine readStructure_alike hread hc hs fun p hsettles => ?_
      exact Covers.inner (p := { cursor := c₁ }) hctx (Or.inl rfl)

end

/-- A failure that a structure raises itself is one that it raises, once it has its name. -/
theorem Matching.within {levels : Nat} {ctx : Context} {i : Nat} {c₁ c₁' : Cursor σ₁}
    {c₂ c₂' : Cursor σ₂} {f g : Failure} (h : P.Matching (P.HasLength i) f g)
    (h₁ : P.left.readBody (P.left.readElement levels) ctx i c₁ = .error f c₁')
    (h₂ : P.right.readBody (P.right.readElement levels) (ctx.moved P.shift) i c₂ = .error g c₂') :
    P.Matching False (f.within (P.document.element i).name)
      (g.within (P.document.element i).name) where
  path := congrArg (List.cons _) h.path
  salvage := h.salvage
  salvaged := h.salvaged
  cause := by
    rcases h.cause with hsame | ⟨huntold, hf, hg, ⟨hown, hpath⟩ | ⟨before, j, hpath, hj⟩⟩
    · exact Or.inl hsame
    · -- it has no path yet, so that the structure itself is to blame
      refine Or.inr ⟨huntold, hf, hg, Or.inr ⟨[], i, ?_, hown, ?_, ?_⟩⟩
      · unfold Failure.within
        rw [hpath]
        rfl
      · exact FailsAt.of_body (f := f) hpath h₁
      · exact FailsAt.of_body (f := g) (h.path.trans hpath) h₂
    · refine Or.inr ⟨huntold, hf, hg, Or.inr ⟨(P.document.element i).name :: before, j, ?_, hj⟩⟩
      unfold Failure.within
      rw [hpath, List.cons_append]

/-- An element is read on both sides as its body is. -/
theorem readElement_of_body {levels : Nat} {ctx : Context} {i : Nat} {c₁ : Cursor σ₁}
    {c₂ : Cursor σ₂} (hc : P.Side 0 c₁ c₂)
    (hbody : P.Reads 0 (Value.moved P.shift) (P.HasLength i)
      (P.left.readBody (P.left.readElement levels) ctx i c₁)
      (P.right.readBody (P.right.readElement levels) (ctx.moved P.shift) i c₂)) :
    P.Reads 0 (Value.moved P.shift) False (P.left.readElement (levels + 1) ctx i c₁)
      (P.right.readElement (levels + 1) (ctx.moved P.shift) i c₂) := by
  generalize h₁ : P.left.readBody (P.left.readElement levels) ctx i c₁ = r₁ at hbody
  generalize h₂ : P.right.readBody (P.right.readElement levels) (ctx.moved P.shift) i c₂ = r₂
    at hbody
  cases hbody with
  | ok v hc' =>
      rw [Decoder.readElement_of_ok h₁, Decoder.readElement_of_ok h₂]
      exact .ok v hc'
  | error hfail hc' =>
      rw [Decoder.readElement_of_error h₁, Decoder.readElement_of_error h₂]
      exact .error (hfail.within h₁ h₂) { hc with first := hc'.first, second := hc'.second }
  | @tooLarge _ g c₁' c₂' hshift hcause hpart hc' =>
      have hback : P.Side 0 { c₁' with pos := c₁.pos } { c₂' with pos := c₂.pos } :=
        { hc with first := hc'.first, second := hc'.second }
      rw [Decoder.readElement_of_error h₂]
      exact .tooLarge hshift hcause hpart hback

/-- **Elements are read alike on both sides.** -/
theorem readElement_alike : ∀ levels : Nat,
    P.Readers (P.left.readElement levels) (P.right.readElement levels)
  | 0, _, _, _, _, _, hc => .error ⟨rfl, rfl, fun _ => .of_none rfl, Or.inl rfl⟩ hc
  | levels + 1, _, _, _, _, hctx, hc =>
      readElement_of_body hc (readBody_alike (readElement_alike levels) hc hctx)

end Pairing

end BinaryGrammar
