import BinaryGrammar.Decode.Element

/-!
# Opening readers

A reader is opened step by step: what a successful run says about its first step, and the run that
remains. Each lemma takes one step off the front, so that the proofs about longer readers follow
their text.
-/

set_option autoImplicit false

namespace BinaryGrammar

namespace Reader

variable {ε τ σ α β : Type}

/-- What a run gives if it succeeds, with the state it ends in. -/
def result? (x : EStateM ε τ α) (s : τ) : Option (α × τ) :=
  match x s with
  | .ok a s' => some (a, s')
  | .error _ _ => none

/-- What a run fails with. -/
def failure? (x : EStateM ε τ α) (s : τ) : Option ε :=
  match x s with
  | .ok _ _ => none
  | .error e _ => some e

theorem ok_of_result? {x : EStateM ε τ α} {s s' : τ} {a : α} (h : result? x s = some (a, s')) :
    x s = .ok a s' := by
  unfold result? at h
  split at h
  · rename_i hx
    cases h
    exact hx
  · cases h

theorem error_of_failure? {x : EStateM ε τ α} {s : τ} {e : ε} (h : failure? x s = some e) :
    ∃ s', x s = .error e s' := by
  unfold failure? at h
  split at h
  · cases h
  · rename_i s' hx
    cases h
    exact ⟨s', hx⟩

/-- A successful sequence is a successful first step and a successful rest. -/
theorem bind_ok {x : EStateM ε τ α} {f : α → EStateM ε τ β} {s s' : τ} {b : β}
    (h : (x >>= f) s = .ok b s') : ∃ a s₁, x s = .ok a s₁ ∧ f a s₁ = .ok b s' := by
  change EStateM.bind x f s = .ok b s' at h
  unfold EStateM.bind at h
  split at h
  · rename_i a s₁ hx
    exact ⟨a, s₁, hx, h⟩
  · exact absurd h (by simp)

/-- A sequence fails in its first step or in its rest. -/
theorem bind_error {x : EStateM ε τ α} {f : α → EStateM ε τ β} {s s' : τ} {e : ε}
    (h : (x >>= f) s = .error e s') :
    x s = .error e s' ∨ ∃ a s₁, x s = .ok a s₁ ∧ f a s₁ = .error e s' := by
  change EStateM.bind x f s = .error e s' at h
  unfold EStateM.bind at h
  split at h
  · rename_i a s₁ hx
    exact Or.inr ⟨a, s₁, hx, h⟩
  · rename_i e₁ s₁ hx
    injection h with he hs
    subst he; subst hs
    exact Or.inl hx

theorem bind_of_ok {x : EStateM ε τ α} {f : α → EStateM ε τ β} {s s₁ : τ} {a : α}
    (h : x s = .ok a s₁) : (x >>= f) s = f a s₁ := by
  change EStateM.bind x f s = f a s₁
  unfold EStateM.bind
  rw [h]

theorem bind_of_error {x : EStateM ε τ α} {f : α → EStateM ε τ β} {s s₁ : τ} {e : ε}
    (h : x s = .error e s₁) : (x >>= f) s = .error e s₁ := by
  change EStateM.bind x f s = .error e s₁
  unfold EStateM.bind
  rw [h]

theorem get_bind {f : τ → EStateM ε τ β} {s : τ} : (get >>= f) s = f s s := rfl

/-- The same for a calculation without a cursor. -/
theorem except_bind_ok {x : Except ε α} {f : α → Except ε β} {b : β}
    (h : (x >>= f) = .ok b) : ∃ a, x = .ok a ∧ f a = .ok b := by
  cases x with
  | ok a => exact ⟨a, rfl, h⟩
  | error e => cases h

theorem except_bind_error {x : Except ε α} {f : α → Except ε β} {e : ε}
    (h : (x >>= f) = .error e) : x = .error e ∨ ∃ a, x = .ok a ∧ f a = .error e := by
  cases x with
  | ok a => exact Or.inr ⟨a, rfl, h⟩
  | error e' => cases h; exact Or.inl rfl

/-! ## What a run keeps -/

/-- A run keeps a property of the state, whether it succeeds or not. -/
structure Keeps (J : τ → Prop) (x : EStateM ε τ α) : Prop where
  ok : ∀ {s s' : τ} {a : α}, J s → x s = .ok a s' → J s'
  error : ∀ {s s' : τ} {e : ε}, J s → x s = .error e s' → J s'

namespace Keeps

variable {J : τ → Prop}

theorem pure (a : α) : Keeps J (Pure.pure a : EStateM ε τ α) where
  ok := fun hs h => by cases h; exact hs
  error := fun _ h => by cases h

theorem throw (e : ε) : Keeps J (throw e : EStateM ε τ α) where
  ok := fun _ h => by cases h
  error := fun hs h => by cases h; exact hs

/-- A sequence keeps what all of its steps keep. -/
theorem bind {x : EStateM ε τ α} {f : α → EStateM ε τ β} (hx : Keeps J x)
    (hf : ∀ a, Keeps J (f a)) : Keeps J (x >>= f) where
  ok := fun hs h => by
    obtain ⟨a, s₁, h₁, h₂⟩ := bind_ok h
    exact (hf a).ok (hx.ok hs h₁) h₂
  error := fun hs h => by
    rcases bind_error h with h₁ | ⟨a, s₁, h₁, h₂⟩
    · exact hx.error hs h₁
    · exact (hf a).error (hx.ok hs h₁) h₂

/-- A step that only looks at the state. -/
theorem get_bind {f : τ → EStateM ε τ β} (hf : ∀ s, Keeps J (f s)) : Keeps J (get >>= f) where
  ok := fun hs h => (hf _).ok hs h
  error := fun hs h => (hf _).error hs h

end Keeps

/-! ## What a run fails with -/

/-- Every failure of a run has a property. -/
structure Fails (P : ε → Prop) (x : EStateM ε τ α) : Prop where
  error : ∀ {s s' : τ} {e : ε}, x s = .error e s' → P e

namespace Fails

variable {P : ε → Prop}

theorem pure (a : α) : Fails P (Pure.pure a : EStateM ε τ α) where
  error := fun h => by cases h

theorem throw {e : ε} (he : P e) : Fails P (throw e : EStateM ε τ α) where
  error := fun h => by cases h; exact he

/-- A sequence fails with what its steps fail with. -/
theorem bind {x : EStateM ε τ α} {f : α → EStateM ε τ β} (hx : Fails P x)
    (hf : ∀ a, Fails P (f a)) : Fails P (x >>= f) where
  error := fun h => by
    rcases bind_error h with h₁ | ⟨a, s₁, _, h₂⟩
    · exact hx.error h₁
    · exact (hf a).error h₂

theorem get_bind {f : τ → EStateM ε τ β} (hf : ∀ s, Fails P (f s)) : Fails P (get >>= f) where
  error := fun h => (hf _).error h

theorem imp {Q : ε → Prop} {x : EStateM ε τ α} (hx : Fails P x) (hPQ : ∀ e, P e → Q e) :
    Fails Q x where
  error := fun h => hPQ _ (hx.error h)

end Fails

/-! ## Steps that only look -/

theorem pos_bind {f : Nat → Reader σ β} {c : Cursor σ} : (pos >>= f) c = f c.pos c := rfl

theorem moveTo_bind {f : Unit → Reader σ β} {c : Cursor σ} {n : Nat} :
    (moveTo n >>= f) c = f () { c with pos := n } := rfl

/-- A reader that does nothing but check a condition. -/
structure Checks (x : Reader σ Unit) (p : Prop) : Prop where
  run : ∀ c, (p ∧ x c = .ok () c) ∨ (¬p ∧ ∃ failure, x c = .error failure c)

namespace Checks

variable {x : Reader σ Unit} {p : Prop}

theorem ok {c c' : Cursor σ} {u : Unit} (hx : Checks x p) (h : x c = .ok u c') : p ∧ c' = c := by
  rcases hx.run c with ⟨hp, hok⟩ | ⟨_, failure, herror⟩
  · rw [hok] at h
    cases h
    exact ⟨hp, rfl⟩
  · rw [herror] at h
    cases h

/-- It succeeds if the condition holds. -/
theorem of (hx : Checks x p) (hp : p) (c : Cursor σ) : x c = .ok () c := by
  rcases hx.run c with ⟨_, hok⟩ | ⟨hnot, _⟩
  · exact hok
  · exact absurd hp hnot

theorem bind {f : Unit → Reader σ β} {c c' : Cursor σ} {b : β} (hx : Checks x p)
    (h : (x >>= f) c = .ok b c') : p ∧ f () c = .ok b c' := by
  obtain ⟨u, c₁, h₁, h₂⟩ := bind_ok h
  obtain ⟨hp, hc⟩ := hx.ok h₁
  rw [hc] at h₂
  exact ⟨hp, h₂⟩

theorem keeps {J : Cursor σ → Prop} (hx : Checks x p) : Keeps J x where
  ok := fun hc h => by
    rw [(hx.ok h).2]
    exact hc
  error := fun {c c' failure} hc h => by
    rcases hx.run c with ⟨_, hok⟩ | ⟨_, failure', herror⟩
    · rw [hok] at h
      cases h
    · rw [herror] at h
      cases h
      exact hc

theorem require (p : Prop) [Decidable p] (cause : Cause) :
    Checks (Reader.require p cause : Reader σ Unit) p := by
  refine ⟨fun c => ?_⟩
  unfold Reader.require
  by_cases hp : p
  · rw [if_pos hp]
    exact Or.inl ⟨hp, rfl⟩
  · rw [if_neg hp]
    exact Or.inr ⟨hp, _, rfl⟩

/-- There is nothing to check against. -/
theorem none {q : α → Prop} :
    Checks (Pure.pure () : Reader σ Unit) (∀ a, Option.none = some a → q a) :=
  ⟨fun _ => Or.inl ⟨fun _ ha => (by cases ha), rfl⟩⟩

/-- There is something to check against. -/
theorem some {q : α → Prop} {a : α} (hx : Checks x (q a)) :
    Checks x (∀ b, Option.some a = Option.some b → q b) := by
  refine ⟨fun c => ?_⟩
  rcases hx.run c with ⟨hq, hok⟩ | ⟨hnot, herror⟩
  · exact Or.inl ⟨fun b hb => (by cases hb; exact hq), hok⟩
  · exact Or.inr ⟨fun hall => hnot (hall a rfl), herror⟩

end Checks

theorem require_ok {p : Prop} [Decidable p] {cause : Cause} {c c' : Cursor σ} {u : Unit}
    (h : require p cause c = .ok u c') : p ∧ c' = c := (Checks.require p cause).ok h

theorem require_bind {p : Prop} [Decidable p] {cause : Cause} {f : Unit → Reader σ β}
    {c c' : Cursor σ} {b : β} (h : (require p cause >>= f) c = .ok b c') :
    p ∧ f () c = .ok b c' := (Checks.require p cause).bind h

theorem requireWord_bind {n : Nat} {f : Unit → Reader σ β} {c c' : Cursor σ} {b : β}
    (h : (requireWord n >>= f) c = .ok b c') : n < Word.modulus ∧ f () c = .ok b c' :=
  require_bind h

theorem require_bind_eq {p : Prop} [Decidable p] {cause : Cause} {f : Unit → Reader σ β}
    {c : Cursor σ} : (require p cause >>= f) c = if p then f () c else .error { cause } c := by
  unfold require
  split <;> rfl

/-- A condition that holds is passed. -/
theorem require_of {p : Prop} [Decidable p] (hp : p) {cause : Cause} {f : Unit → Reader σ β}
    {c : Cursor σ} : (require p cause >>= f) c = f () c := require_bind_eq.trans (if_pos hp)

/-- A condition that does not hold is not passed. -/
theorem require_not {p : Prop} [Decidable p] (hp : ¬p) {cause : Cause} {f : Unit → Reader σ β}
    {c : Cursor σ} : (require p cause >>= f) c = .error { cause } c :=
  require_bind_eq.trans (if_neg hp)

theorem requireWord_of {n : Nat} (hn : n < Word.modulus) {f : Unit → Reader σ β} {c : Cursor σ} :
    (requireWord n >>= f) c = f () c := require_of hn

theorem ensureAligned_bind {f : Unit → Reader σ β} {c c' : Cursor σ} {b : β}
    (h : (ensureAligned >>= f) c = .ok b c') : c.pos % 8 = 0 ∧ f () c = .ok b c' := by
  obtain ⟨u, c₁, h₁, h₂⟩ := bind_ok h
  unfold ensureAligned at h₁
  rw [pos_bind] at h₁
  obtain ⟨hal, hc⟩ := require_ok h₁
  rw [hc] at h₂
  exact ⟨hal, h₂⟩

theorem ofExcept_bind {x : Except Cause α} {f : α → Reader σ β} {c c' : Cursor σ} {b : β}
    (h : (ofExcept x >>= f) c = .ok b c') : ∃ a, x = .ok a ∧ f a c = .ok b c' := by
  cases x with
  | ok a => exact ⟨a, rfl, h⟩
  | error cause => cases h

namespace Keeps

variable {J : Cursor σ → Prop}

theorem pos : Keeps J (Reader.pos : Reader σ Nat) :=
  get_bind fun _ => pure _

theorem fail (cause : Cause) : Keeps J (Reader.fail cause : Reader σ α) := throw _

theorem require (p : Prop) [Decidable p] (cause : Cause) :
    Keeps J (Reader.require p cause : Reader σ Unit) := (Checks.require p cause).keeps

theorem requireWord (n : Nat) : Keeps J (Reader.requireWord n : Reader σ Unit) := require _ _

theorem ensureAligned : Keeps J (Reader.ensureAligned : Reader σ Unit) :=
  pos.bind fun _ => require _ _

theorem ofExcept (x : Except Cause α) : Keeps J (Reader.ofExcept x : Reader σ α) := by
  cases x with
  | ok a => exact pure _
  | error cause => exact fail _

end Keeps

namespace Fails

variable {P : Failure → Prop}

theorem pos : Fails P (Reader.pos : Reader σ Nat) := get_bind fun _ => pure _

theorem moveTo (n : Nat) : Fails P (Reader.moveTo n : Reader σ Unit) where
  error := fun h => by cases h

theorem fail {cause : Cause} (h : P { cause }) : Fails P (Reader.fail cause : Reader σ α) := throw h

/-- A condition is the excuse of the failure that its absence is. -/
theorem require {p : Prop} [Decidable p] {cause : Cause} (h : ¬p → P { cause }) :
    Fails P (Reader.require p cause : Reader σ Unit) := by
  unfold Reader.require
  split
  · exact pure _
  · rename_i hp
    exact fail (h hp)

theorem requireWord {n : Nat} (h : P { cause := .overflow }) :
    Fails P (Reader.requireWord n : Reader σ Unit) := require fun _ => h

theorem ensureAligned (h : ∀ n, P { cause := .misaligned n }) :
    Fails P (Reader.ensureAligned : Reader σ Unit) :=
  pos.bind fun n => require fun _ => h n

/-- The steps after a calculation may use what it says. -/
theorem ofExcept_bind {x : Except Cause α} {f : α → Reader σ β}
    (hx : ∀ cause, x = .error cause → P { cause }) (hf : ∀ a, x = .ok a → Fails P (f a)) :
    Fails P (Reader.ofExcept x >>= f) where
  error := fun {s s' e} h => by
    cases x with
    | ok a => exact (hf a rfl).error h
    | error cause => cases h; exact hx cause rfl

end Fails

end Reader

end BinaryGrammar
