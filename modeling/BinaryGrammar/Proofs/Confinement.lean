import BinaryGrammar.Proofs.Failing
import BinaryGrammar.Proofs.Keeping

/-!
# Where the bytes are

Where all bytes of a source lie far enough from the largest word, the places that a decoder works
out are words as long as the cursor stands where the bytes are. So what is shown of a reader is
threefold: it moves the cursor only forward and keeps it where the bytes are, what it salvages from
a failure lies there as well, and no failure is an overflow. The three are shown together and step
by step, as each step begins where the one before has left the cursor.
-/

set_option autoImplicit false

namespace BinaryGrammar

/-- Bytes up to the largest word can be asked for. -/
theorem ByteSource.readFullFrom_ne_overflow {σ : Type} (src : ByteSource σ) {offset count : Nat}
    (h : offset + count ≤ Word.modulus) (got : Bytes) (s : σ) :
    (src.readFullFrom offset count got s).1 ≠ .error .overflow := by
  fun_induction ByteSource.readFullFrom src offset count got s with
  | case1 => intro hover; cases hover
  | case2 got s hlt hword more s₁ hread hmore ih => exact ih
  | case3 got s hlt hword reason s₁ hread ih => exact ih
  | case4 => intro hover; cases hover
  | case5 got s hlt hover => omega
  | case6 => intro hover; cases hover

/-! ## Failures that are no overflow -/

theorem Cause.Calculated.ne_overflow {cause : Cause} (h : cause.Calculated) :
    cause ≠ .overflow := by
  rintro rfl
  exact h

/-- A failure is no overflow, and what was decoded before it lies in the first `n` bytes. -/
structure Failure.Tame (n : Nat) (f : Failure) : Prop where
  cause : f.cause ≠ .overflow
  salvaged : f.Salvaged n

theorem Failure.Tame.of_cause {n : Nat} {cause : Cause} (h : cause ≠ .overflow) :
    Failure.Tame n { cause } := ⟨h, .of_none rfl⟩

/-- What is salvaged of a structure ends with its fields or with what is salvaged of the next. -/
theorem Failure.Salvaged.inStructure {n start pos : Nat} {f : Failure} (hf : f.Salvaged n)
    (hal : start % 8 = 0) (hstart : start ≤ 8 * n) (hpos : pos ≤ 8 * n) (label : Nat)
    (children : List Value) : (Decoder.inStructure label start pos children f).Salvaged n := by
  have hfields : start / 8 + (pos - start + 7) / 8 ≤ n := by omega
  have hnothing : (Failure.Salvaged n { cause := .overflow }) := .of_none rfl
  unfold Decoder.inStructure Failure.through
  split
  · cases hpart : f.salvage with
    | none =>
        intro whole hwhole
        cases hwhole
        exact hfields
    | some part =>
        have hstop := hf part hpart
        dsimp only
        split
        · intro whole hwhole
          cases hwhole
          unfold Value.stop
          change start / 8 + max ((pos - start + 7) / 8) (part.stop - start / 8) ≤ n
          omega
        · exact hnothing
  · exact hnothing

/-- Adding what was decoded of a structure does not overflow. -/
theorem Failure.Tame.inStructure {n start pos : Nat} {f : Failure} (hf : f.Tame n)
    (hword : 8 * n + 7 < Word.modulus) (hal : start % 8 = 0) (hstart : start ≤ 8 * n)
    (hpos : pos ≤ 8 * n) (label : Nat) (children : List Value) :
    (Decoder.inStructure label start pos children f).Tame n := by
  refine ⟨?_, hf.salvaged.inStructure hal hstart hpos label children⟩
  -- the end of the fields and that of the salvaged field both lie in the first `n` bytes
  unfold Decoder.inStructure Failure.through
  rw [if_pos (by omega)]
  cases hpart : f.salvage with
  | none => exact hf.cause
  | some part =>
      have hstop := hf.salvaged part hpart
      dsimp only
      rw [if_pos (by omega)]
      exact hf.cause

/-! ## Runs from a state -/

/-- From a state a run that succeeds leads to a state that `J` relates to it, and one that fails
does so as `E` says. -/
structure Reader.Leads {τ α : Type} (J : τ → τ → Prop) (E : Failure → τ → Prop) (s : τ)
    (x : EStateM Failure τ α) : Prop where
  ok : ∀ {a : α} {s' : τ}, x s = .ok a s' → J s s'
  error : ∀ {f : Failure} {s' : τ}, x s = .error f s' → E f s'

namespace Reader.Leads

variable {τ α β : Type} {J : τ → τ → Prop} {E : Failure → τ → Prop} {s : τ}
  {x : EStateM Failure τ α}

theorem of_ok (a : α) (s' : τ) (hx : x s = .ok a s') (hJ : J s s') : Leads J E s x where
  ok := fun hok => by cases hx.symm.trans hok; exact hJ
  error := fun herror => by cases hx.symm.trans herror

theorem of_error (f : Failure) (s' : τ) (hx : x s = .error f s') (hE : E f s') :
    Leads J E s x where
  ok := fun hok => by cases hx.symm.trans hok
  error := fun herror => by cases hx.symm.trans herror; exact hE

theorem pure (a : α) (h : J s s) : Leads J E s (Pure.pure a) := of_ok a s rfl h

/-- What is done in a state does not depend on how it is written. -/
theorem congr {y : EStateM Failure τ α} (h : Leads J E s y) (hx : x s = y s) : Leads J E s x where
  ok := fun hok => h.ok (hx ▸ hok)
  error := fun herror => h.error (hx ▸ herror)

theorem imp {J' : τ → τ → Prop} (h : Leads J E s x) (hJ : ∀ {s'}, J s s' → J' s s') :
    Leads J' E s x where
  ok := fun hok => hJ (h.ok hok)
  error := h.error

/-- A sequence leads where its steps lead. -/
theorem bind {f : α → EStateM Failure τ β} (htrans : ∀ {a b c : τ}, J a b → J b c → J a c)
    (hx : Leads J E s x) (hf : ∀ a s', x s = .ok a s' → Leads J E s' (f a)) :
    Leads J E s (x >>= f) where
  ok := fun h => by
    obtain ⟨a, s₁, h₁, h₂⟩ := bind_ok h
    exact htrans (hx.ok h₁) ((hf a s₁ h₁).ok h₂)
  error := fun h => by
    rcases bind_error h with h₁ | ⟨a, s₁, h₁, h₂⟩
    · exact hx.error h₁
    · exact (hf a s₁ h₁).error h₂

theorem get_bind {f : τ → EStateM Failure τ β} (h : Leads J E s (f s)) : Leads J E s (get >>= f) :=
  h.congr rfl

end Reader.Leads

namespace Decoder

open ByteSource (InsideAt)
open Reader (Leads)

/-- Everything that a decoder meets in the states `I` of its source lies in the first `n` bytes, and
with the bits of one more number these can be counted. What a script of the document covers has to
lie there only if the source does not tell its size. -/
structure Confined {σ : Type} (d : Decoder σ) (n : Nat) (I : σ → Prop) : Prop where
  word : 8 * n + 72 ≤ Word.modulus
  stays : d.source.Stays I
  inside : ∀ {s s' : σ} {offset count : Nat} {bytes : Bytes}, I s →
    d.source.readAt s offset count = (.bytes bytes, s') → bytes.size ≠ 0 → offset + bytes.size ≤ n
  size : ∀ {s : σ} {m : Nat}, I s → d.source.size s = some m → m ≤ n
  scripts : d.ScriptsStay I
  covered : ∀ {request : ScriptRequest} {s s' : σ} {out : ScriptValue}, I s →
    request.offset ≤ n → (∃ i, request.script = d.document.script i) →
    d.scripts.run d.source request s = (.ok out, s') → d.source.size s' = none →
    request.offset + out.length ≤ n

variable {σ α β : Type} {d : Decoder σ} {n : Nat} {I : σ → Prop} {ctx : Context} {c : Cursor σ}

/-- In a source that tells its size scripts may cover what they like. -/
theorem Confined.of_sized {m : Nat} (hsized : d.source.Sized m I) (hscripts : d.ScriptsStay I)
    (hm : m ≤ n) (hword : 8 * n + 72 ≤ Word.modulus) : d.Confined n I where
  word := hword
  stays := hsized.stays
  inside := fun hs hread hne => Nat.le_trans (hsized.inside hs hread hne) hm
  size := fun hs hsize => by
    cases (hsized.size hs).symm.trans hsize
    exact hm
  scripts := hscripts
  covered := fun {request s s' out} hs _ _ hrun hsize => by
    have hs' := hscripts request hs
    rw [hrun] at hs'
    cases (hsized.size hs').symm.trans hsize

theorem Confined.yields (h : d.Confined n I) : d.source.Yields I (InsideAt n) where
  stays := h.stays
  read := fun hs hread hne => Or.inr (h.inside hs hread hne)
  none := fun _ => Or.inl rfl
  append := InsideAt.append

/-- Wherever the bytes are, a chunk can be asked for. -/
theorem Confined.chunk_lt (h : d.Confined n I) : n + chunk < Word.modulus := by
  have hword := h.word
  unfold Word.modulus at *
  unfold chunk
  omega

/-- The cursor stands where the bytes are. -/
structure Placed (n : Nat) (I : σ → Prop) (c : Cursor σ) : Prop where
  state : InState I c
  pos : c.pos ≤ 8 * n

theorem Placed.moved (hc : Placed n I c) {stop : Nat} (hstop : stop ≤ 8 * n) :
    Placed n I { c with pos := stop } := ⟨hc.state, hstop⟩

/-- A reader for whose words there is room: it moves the cursor only forward, keeps it and what it
salvages where the bytes are, and fails for no overflow. -/
abbrev Exact (n : Nat) (I : σ → Prop) (c : Cursor σ) (x : Reader σ α) : Prop :=
  Leads (fun c c' => Placed n I c' ∧ c.pos ≤ c'.pos) (fun f c' => Placed n I c' ∧ f.Tame n) c x

/-- A reader that leaves the cursor as it is, salvages nothing and does not overflow. -/
structure Quiet (x : Reader σ α) : Prop where
  ok : ∀ {c c' : Cursor σ} {a : α}, x c = .ok a c' → c' = c
  error : ∀ {c c' : Cursor σ} {f : Failure}, x c = .error f c' →
    c' = c ∧ f.salvage = none ∧ f.cause ≠ .overflow

namespace Quiet

theorem pure (a : α) : Quiet (Pure.pure a : Reader σ α) where
  ok := fun h => by cases h; rfl
  error := fun h => by cases h

theorem fail {cause : Cause} (h : cause ≠ .overflow) : Quiet (Reader.fail cause : Reader σ α) where
  ok := fun h => by cases h
  error := fun h' => by cases h'; exact ⟨rfl, rfl, h⟩

theorem require (p : Prop) [Decidable p] {cause : Cause} (h : cause ≠ .overflow) :
    Quiet (Reader.require p cause : Reader σ Unit) := by
  unfold Reader.require
  split
  · exact pure _
  · exact fail h

theorem ofExcept {x : Except Cause α} (hx : Calculates x) :
    Quiet (Reader.ofExcept x : Reader σ α) := by
  cases x with
  | ok a => exact pure a
  | error cause => exact fail (hx.error rfl).ne_overflow

theorem ensureAligned : Quiet (Reader.ensureAligned : Reader σ Unit) := by
  have hrequire (c : Cursor σ) :
      Quiet (Reader.require (c.pos % 8 = 0) (.misaligned c.pos) : Reader σ Unit) := require _ nofun
  exact ⟨fun {c _ _} h => (hrequire c).ok h, fun {c _ _} h => (hrequire c).error h⟩

theorem requireRoom (ctx : Context) (pos count : Nat) :
    Quiet (Decoder.requireRoom ctx pos count : Reader σ Unit) := by
  unfold Decoder.requireRoom
  split
  · exact require _ nofun
  · exact pure _

theorem requireBits (ctx : Context) (pos stop needed : Nat) :
    Quiet (Decoder.requireBits ctx pos stop needed : Reader σ Unit) := by
  unfold Decoder.requireBits
  split
  · exact require _ nofun
  · exact pure _

theorem requireInside (ctx : Context) (start length stop : Nat) :
    Quiet (Decoder.requireInside ctx start length stop : Reader σ Unit) := by
  unfold Decoder.requireInside
  split
  · exact require _ nofun
  · exact pure _

theorem requireData (size : Option Nat) (offset length stop : Nat) :
    Quiet (Decoder.requireData size offset length stop : Reader σ Unit) := by
  unfold Decoder.requireData
  split
  · exact require _ nofun
  · exact pure _

theorem requireOuter (outer : Context) (pos stop : Nat) :
    Quiet (Decoder.requireOuter outer pos stop : Reader σ Unit) := by
  unfold Decoder.requireOuter
  split
  · exact require _ nofun
  · exact pure _

end Quiet

namespace Exact

theorem placed {x : Reader σ α} (h : Exact n I c x) :
    Leads (fun _ c' => Placed n I c') (fun f c' => Placed n I c' ∧ f.Tame n) c x :=
  h.imp fun hok => hok.1

/-- The cursor is not before a place that it was not before. -/
theorem not_before {x : Reader σ α} {start : Nat} (hstart : start ≤ c.pos) (h : Exact n I c x) :
    Leads (fun _ c' => Placed n I c' ∧ start ≤ c'.pos) (fun f c' => Placed n I c' ∧ f.Tame n) c x :=
  h.imp fun hok => ⟨hok.1, Nat.le_trans hstart hok.2⟩

theorem bind {x : Reader σ α} {f : α → Reader σ β} (hx : Exact n I c x)
    (hf : ∀ a c', x c = .ok a c' → Placed n I c' → c.pos ≤ c'.pos → Exact n I c' (f a)) :
    Exact n I c (x >>= f) :=
  Leads.bind (fun h h' => ⟨h'.1, Nat.le_trans h.2 h'.2⟩) hx fun a c' h =>
    hf a c' h (hx.ok h).1 (hx.ok h).2

theorem pos_bind {f : Nat → Reader σ β} (h : Exact n I c (f c.pos)) :
    Exact n I c (Reader.pos >>= f) := h.congr rfl

theorem size_bind {f : Option Nat → Reader σ β} (h : Exact n I c (f (d.source.size c.source))) :
    Exact n I c (d.size >>= f) := h.congr rfl

/-- A condition that holds is passed, -/
theorem require_of {p : Prop} [Decidable p] (hp : p) {cause : Cause} {f : Unit → Reader σ β}
    (h : Exact n I c (f ())) : Exact n I c (Reader.require p cause >>= f) :=
  h.congr (Reader.require_of hp)

/-- and so is a word. -/
theorem word_bind {k : Nat} (hk : k < Word.modulus) {f : Unit → Reader σ β}
    (h : Exact n I c (f ())) : Exact n I c (Reader.requireWord k >>= f) := require_of hk h

theorem moveTo_bind {f : Unit → Reader σ β} {stop : Nat} (hle : c.pos ≤ stop)
    (h : Exact n I { c with pos := stop } (f ())) : Exact n I c (Reader.moveTo stop >>= f) :=
  ⟨fun hok => ⟨(h.ok hok).1, Nat.le_trans hle (h.ok hok).2⟩, h.error⟩

section

variable (hc : Placed n I c)
include hc

theorem pure (a : α) : Exact n I c (Pure.pure a) := Leads.pure a ⟨hc, Nat.le_refl _⟩

theorem quiet {x : Reader σ α} (hx : Quiet x) : Exact n I c x where
  ok := fun h => by rw [hx.ok h]; exact ⟨hc, Nat.le_refl _⟩
  error := fun h => by
    obtain ⟨hsame, hnone, hcause⟩ := hx.error h
    rw [hsame]
    exact ⟨hc, hcause, .of_none hnone⟩

/-- After a quiet reader the cursor is where it was. -/
theorem quiet_bind {x : Reader σ α} {f : α → Reader σ β} (hx : Quiet x)
    (hf : ∀ a, x c = .ok a c → Exact n I c (f a)) : Exact n I c (x >>= f) := by
  refine bind (quiet hc hx) fun a c' h _ _ => ?_
  have hsame := hx.ok h
  rw [hsame] at h ⊢
  exact hf a h

theorem aligned_bind {f : Unit → Reader σ β} (hf : c.pos % 8 = 0 → Exact n I c (f ())) :
    Exact n I c (Reader.ensureAligned >>= f) :=
  quiet_bind hc .ensureAligned fun _ h => by
    unfold Reader.ensureAligned at h
    rw [Reader.pos_bind] at h
    exact hf (Reader.require_ok h).1

theorem require_bind {p : Prop} [Decidable p] {cause : Cause} {f : Unit → Reader σ β}
    (hcause : cause ≠ .overflow) (hf : p → Exact n I c (f ())) :
    Exact n I c (Reader.require p cause >>= f) :=
  quiet_bind hc (.require _ hcause) fun _ h => hf (Reader.require_ok h).1

theorem ofExcept_bind {x : Except Cause α} {f : α → Reader σ β} (hx : Calculates x)
    (hf : ∀ a, Exact n I c (f a)) : Exact n I c (Reader.ofExcept x >>= f) :=
  quiet_bind hc (.ofExcept hx) fun a _ => hf a

end

end Exact

end Decoder

end BinaryGrammar
