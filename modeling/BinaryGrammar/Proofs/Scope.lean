import BinaryGrammar.Proofs.Extent

/-!
# What formulas see

The value of a formula depends on the fields that its paths lead to and on no others, and it has a
value only if all of its paths lead somewhere. In a frame a name leads to the last field that has
it; a name that no field of the frame has leads to the surroundings.
-/

set_option autoImplicit false

namespace BinaryGrammar

/-! ## Formulas -/

namespace Formula

/-- The paths in a formula. -/
def paths : Formula → List (List String)
  | .number _ => []
  | .path names => [names]
  | .unary _ f => f.paths
  | .binary _ f g => f.paths ++ g.paths

variable {s t : Scope}

/-- A formula has the same value wherever its paths lead to the same integers. -/
theorem eval_congr {f : Formula} (h : ∀ path ∈ f.paths, s path = t path) :
    eval s f = eval t f := by
  induction f with
  | number v => rfl
  | path names =>
      unfold eval
      rw [h names (List.mem_singleton.mpr rfl)]
  | unary op f ih =>
      unfold eval
      rw [ih h]
  | binary op f g ihf ihg =>
      unfold eval
      rw [ihf fun path hp => h path (List.mem_append_left _ hp),
        ihg fun path hp => h path (List.mem_append_right _ hp)]

/-- A formula that has a value has only paths that lead somewhere. -/
theorem eval_found {f : Formula} {v : Int} (h : eval s f = .ok v) :
    ∀ path ∈ f.paths, (s path).isSome := by
  induction f generalizing v with
  | number v => intro path hp; cases hp
  | path names =>
      intro path hp
      rw [List.mem_singleton.mp hp]
      unfold eval at h
      split at h
      · rename_i n hn
        rw [hn]
        rfl
      · cases h
  | unary op f ih =>
      unfold eval at h
      split at h
      · rename_i a ha
        exact ih ha
      · cases h
  | binary op f g ihf ihg =>
      unfold eval at h
      split at h
      · cases h
      · rename_i a ha
        split at h
        · cases h
        · rename_i b hb
          intro path hp
          rcases List.mem_append.mp hp with hp | hp
          · exact ihf ha path hp
          · exact ihg hb path hp

/-- An operation may fail, but not for want of a field. -/
def Knows {α : Type} (r : Except EvalError α) : Prop := ∀ name, r ≠ .error (.unknownName name)

theorem checked_knows (v : Int) : Knows (checked v) := by
  intro name
  unfold checked
  split <;> simp

theorem shift_knows (count : Int) (f : Nat → Int) :
    Knows (match shiftCount count with | .ok n => .ok (f n) | .error e => .error e) := by
  intro name
  unfold shiftCount
  by_cases h : 0 ≤ count ∧ count < 64
  · simp [h]
  · simp [h]

theorem applyUnary_knows (op : UnaryOp) (v : Int) : Knows (applyUnary op v) := by
  cases op with
  | negate => exact checked_knows _
  | complement => intro name; simp [applyUnary]

theorem applyBinary_knows (op : BinaryOp) (a b : Int) : Knows (applyBinary op a b) := by
  cases op with
  | add => exact checked_knows _
  | subtract => exact checked_knows _
  | multiply => exact checked_knows _
  | divide =>
      unfold applyBinary
      dsimp only
      split
      · intro name; simp
      · exact checked_knows _
  | remainder =>
      unfold applyBinary
      dsimp only
      intro name
      split
      · simp
      · split <;> simp
  | shiftLeft => exact shift_knows b fun n => ofBits (toBits a <<< n)
  | shiftRight => exact shift_knows b fun n => ofBits ((toBits a).sshiftRight n)
  | and => intro name; simp [applyBinary]
  | or => intro name; simp [applyBinary]
  | xor => intro name; simp [applyBinary]

/-- A formula without a value for want of a field has a path that leads nowhere. -/
theorem eval_unknown {f : Formula} {name : String} (h : eval s f = .error (.unknownName name)) :
    ∃ path ∈ f.paths, s path = none := by
  induction f with
  | number v => cases h
  | path names =>
      unfold eval at h
      split at h
      · cases h
      · rename_i hnone
        exact ⟨names, List.mem_singleton.mpr rfl, hnone⟩
  | unary op f ih =>
      unfold eval at h
      split at h
      · exact absurd h (applyUnary_knows _ _ name)
      · rename_i e he
        cases h
        exact ih he
  | binary op f g ihf ihg =>
      unfold eval at h
      split at h
      · rename_i e he
        cases h
        obtain ⟨path, hp, hnone⟩ := ihf he
        exact ⟨path, List.mem_append_left _ hp, hnone⟩
      · split at h
        · rename_i e he
          cases h
          obtain ⟨path, hp, hnone⟩ := ihg he
          exact ⟨path, List.mem_append_right _ hp, hnone⟩
        · exact absurd h (applyBinary_knows _ _ _ name)

theorem parse_knows (text : String) : Knows (parse text) := by
  intro name
  unfold parse
  split
  · simp
  · split
    · simp
    · split <;> simp

end Formula

/-- The paths in an expression. -/
def Expression.paths : Expression → List (List String)
  | .constant _ => []
  | .formula text =>
    match Formula.parse text with
    | .ok f => f.paths
    | .error _ => []

namespace Decoder

variable {σ : Type} {d : Decoder σ} {ctx ctx' : Context} {e : Expression}

theorem evaluate_congr (heval : d.evaluator = Formula.evaluate)
    (h : ∀ path ∈ e.paths, ctx.scope d.document path = ctx'.scope d.document path) :
    d.evaluate ctx e = d.evaluate ctx' e := by
  cases e with
  | constant v => rfl
  | formula text =>
      simp only [evaluate, heval, Formula.evaluate]
      unfold Expression.paths at h
      cases hparse : Formula.parse text with
      | error cause => rfl
      | ok f =>
          simp only [hparse] at h
          dsimp only
          rw [Formula.eval_congr h]

theorem evaluate_found (heval : d.evaluator = Formula.evaluate) {v : Int}
    (h : d.evaluate ctx e = .ok v) :
    ∀ path ∈ e.paths, (ctx.scope d.document path).isSome := by
  cases e with
  | constant v => intro path hp; cases hp
  | formula text =>
      simp only [evaluate, heval, Formula.evaluate] at h
      unfold Expression.paths
      cases hparse : Formula.parse text with
      | error cause =>
          simp only [hparse] at h
          cases h
      | ok f =>
          simp only [hparse] at h ⊢
          split at h
          · rename_i a ha
            exact Formula.eval_found ha
          · cases h

theorem evaluate_unknown (heval : d.evaluator = Formula.evaluate) {cause : Cause}
    (h : d.evaluate ctx e = .error cause) (hcause : cause.isUnknownName = true) :
    ∃ path ∈ e.paths, ctx.scope d.document path = none := by
  cases e with
  | constant v => cases h
  | formula text =>
      simp only [evaluate, heval, Formula.evaluate] at h
      unfold Expression.paths
      cases hparse : Formula.parse text with
      | error fault =>
          simp only [hparse] at h
          cases h
          cases fault with
          | unknownName name => exact absurd hparse (Formula.parse_knows text name)
          | _ => cases hcause
      | ok f =>
          simp only [hparse] at h ⊢
          split at h
          · cases h
          · rename_i fault hfault
            cases h
            cases fault with
            | unknownName name => exact Formula.eval_unknown hfault
            | _ => cases hcause

/-- The paths in the length of a structure and in what is added to it. -/
def lengthPaths (d : Decoder σ) (i : Nat) : List (List String) :=
  (d.document.length i).toList.flatMap Expression.paths ++
    (d.document.lengthOffset i).toList.flatMap Expression.paths

theorem extentBits?_congr (heval : d.evaluator = Formula.evaluate) {i : Nat}
    (h : ∀ path ∈ d.lengthPaths i, ctx.scope d.document path = ctx'.scope d.document path) :
    d.extentBits? ctx i = d.extentBits? ctx' i := by
  unfold lengthPaths at h
  have htotal : ∀ length, d.total ctx i length = d.total ctx' i length := by
    intro length
    unfold total
    cases hoffset : d.document.lengthOffset i with
    | none => rfl
    | some e =>
        rw [hoffset] at h
        have he : d.evaluate ctx e = d.evaluate ctx' e :=
          evaluate_congr heval fun path hp => h path (List.mem_append_right _ (by simpa using hp))
        dsimp only
        rw [he]
  unfold extentBits?
  cases hlength : d.document.length i with
  | none => rfl
  | some e =>
      rw [hlength] at h
      have he : d.evaluate ctx e = d.evaluate ctx' e :=
        evaluate_congr heval fun path hp => h path (List.mem_append_left _ (by simpa using hp))
      dsimp only
      rw [he]
      simp only [htotal]

theorem extentBits?_found (heval : d.evaluator = Formula.evaluate) {i length : Nat}
    (h : d.extentBits? ctx i = .ok (some length)) :
    ∀ path ∈ d.lengthPaths i, (ctx.scope d.document path).isSome := by
  unfold extentBits? at h
  split at h
  · cases h
  · rename_i e hlength
    obtain ⟨n, hn, h⟩ := Reader.except_bind_ok h
    obtain ⟨m, hm, h⟩ := Reader.except_bind_ok h
    intro path hp
    unfold lengthPaths at hp
    rw [hlength] at hp
    rcases List.mem_append.mp hp with hp | hp
    · exact evaluate_found heval hn path (by simpa using hp)
    · unfold total at hm
      split at hm
      · rename_i hnone
        rw [hnone] at hp
        cases hp
      · rename_i e' hoffset
        rw [hoffset] at hp
        split at hm
        · cases hm
        · rename_i extra hextra
          exact evaluate_found heval hextra path (by simpa using hp)

theorem extentBits?_unknown (heval : d.evaluator = Formula.evaluate) {i : Nat} {cause : Cause}
    (h : d.extentBits? ctx i = .error cause) (hcause : cause.isUnknownName = true) :
    ∃ path ∈ d.lengthPaths i, ctx.scope d.document path = none := by
  unfold extentBits? at h
  split at h
  · cases h
  · rename_i e hlength
    unfold lengthPaths
    rw [hlength]
    rcases Reader.except_bind_error h with h | ⟨n, _, h⟩
    · obtain ⟨path, hp, hnone⟩ := evaluate_unknown heval h hcause
      exact ⟨path, List.mem_append_left _ (by simpa using hp), hnone⟩
    rcases Reader.except_bind_error h with h | ⟨m, _, h⟩
    · unfold total at h
      split at h
      · cases h
      · rename_i e' hoffset
        rw [hoffset]
        split at h
        · rename_i cause' hextra
          cases h
          obtain ⟨path, hp, hnone⟩ := evaluate_unknown heval hextra hcause
          exact ⟨path, List.mem_append_right _ (by simpa using hp), hnone⟩
        · split at h
          · cases h
          · cases h
            cases hcause
    -- the arithmetic on lengths fails for other reasons
    rcases Reader.except_bind_error h with h | ⟨bits, _, h⟩
    · unfold bitsOf at h
      split at h
      · cases h; cases hcause
      · split at h
        · cases h
        · cases h; cases hcause
    rcases Reader.except_bind_error h with h | ⟨whole, _, h⟩
    · unfold wholeBytes at h
      split at h
      · cases h
      · cases h; cases hcause
    · cases h

end Decoder

/-! ## Frames -/

namespace Frame

variable {frame : Frame} {name name' : String} {v : Value}

/-- Every name that is indexed leads to a field of the frame. -/
def Indexed (frame : Frame) : Prop :=
  ∀ (name : String) (k : Nat), frame.latest[name]? = some k → k < frame.values.size

theorem Indexed.push (h : frame.Indexed) (name : String) (v : Value) :
    (frame.push name v).Indexed := by
  intro name' k hk
  rw [values_push, Array.size_push]
  unfold Frame.push at hk
  split at hk
  · exact Nat.lt_succ_of_lt (h name' k hk)
  · dsimp only at hk
    rw [Std.HashMap.getElem?_insert] at hk
    split at hk
    · cases hk
      exact Nat.lt_succ_self _
    · exact Nat.lt_succ_of_lt (h name' k hk)

/-- A new field is the latest with its name; the others are found as before. -/
theorem Indexed.get?_push (h : frame.Indexed) (hname : name' ≠ "") :
    (frame.push name v).get? name' = if name = name' then some v else frame.get? name' := by
  have hold : (frame.latest[name']?.bind fun k => (frame.values.push v)[k]?) =
      frame.get? name' := by
    unfold get?
    cases hk : frame.latest[name']? with
    | none => rfl
    | some k =>
        have hlt := h name' k hk
        simp only [Option.bind_some]
        rw [Array.getElem?_push_lt hlt, Array.getElem?_eq_getElem hlt]
  unfold Frame.push
  split
  · rename_i hempty
    have hne : name ≠ name' := by
      intro he
      rw [String.isEmpty_iff.mp hempty] at he
      exact hname he.symm
    rw [if_neg hne]
    exact hold
  · unfold get?
    dsimp only
    rw [Std.HashMap.getElem?_insert]
    by_cases he : name = name'
    · rw [if_pos he, if_pos (beq_iff_eq.mpr he), Option.bind_some, Array.getElem?_push_size]
    · rw [if_neg he, if_neg (fun hb => he (beq_iff_eq.mp hb))]
      exact hold

variable {doc : Document}

/-- A name leads to the last of the new fields that has it, or to what it led to before. -/
theorem Indexed.get?_pushAll (hname : name ≠ "") : ∀ (vs : List Value) {frame : Frame},
    frame.Indexed → (frame.pushAll doc vs).get? name =
      (vs.reverse.find? (Value.isNamed doc name)).or (frame.get? name)
  | [], frame, _ => rfl
  | v :: vs, frame, h => by
      have hrest := get?_pushAll hname vs (h.push (doc.element v.element).name v)
      have hlast : (frame.push (doc.element v.element).name v).get? name =
          ([v].find? (Value.isNamed doc name)).or (frame.get? name) := by
        rw [h.get?_push hname, List.find?_singleton]
        unfold Value.isNamed
        by_cases hv : (doc.element v.element).name = name
        · rw [if_pos hv, if_pos (beq_iff_eq.mpr hv)]
          rfl
        · rw [if_neg hv, if_neg (fun hb => hv (beq_iff_eq.mp hb))]
          rfl
      rw [List.reverse_cons, List.find?_append, Option.or_assoc, ← hlast]
      exact hrest

/-- **A name leads to the last field that has it.** -/
theorem get?_ofValues (hname : name ≠ "") (vs : List Value) :
    (ofValues doc vs).get? name = vs.reverse.find? (Value.isNamed doc name) := by
  have hempty : ({} : Frame).Indexed := by
    intro name k hk
    simp at hk
  rw [ofValues, hempty.get?_pushAll hname vs]
  simp [get?]

end Frame

end BinaryGrammar
