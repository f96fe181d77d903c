import BinaryGrammar.Proofs.Blame
import BinaryGrammar.Proofs.Moved
import BinaryGrammar.Proofs.Sized

/-!
# Two decoders side by side

Two sources hold the same bytes, in the second one so many bytes further on. A decoder without
scripts that reads from the one does what it does when it reads from the other: it asks for the same
bytes at places that are so much further on, gets them, and makes the same of them. This is proved
reader by reader, in the order of their definitions, for three kinds of sources at once: sources
that have only their first bytes in common, if nothing is read after these; sources that have all
bytes in common; and sources of which the second does not tell where it ends. In the last case the
two may word differently that a structure of fixed length ends after the data, and nothing else. If
nothing is moved the two overflow together, and otherwise the data are too short for that.

There is one way for the second decoder to go astray: the end of a structure is too large for a word
further on and not before. It then fails for that, which no repetition hides.
-/

set_option autoImplicit false

namespace BinaryGrammar

/-- What two sources have in common. -/
inductive Accord where
  /-- Some bytes, after which either source may go on. -/
  | part
  /-- All bytes, and both tell their number. -/
  | whole
  /-- All bytes, and only the first tells their number. -/
  | untold
  deriving DecidableEq, Repr

/-- What two sources tell of their sizes, if the bytes in common end at `n` in the first one, and
`k` bytes further on in the second. -/
def Accord.Sizes (n k : Nat) : Accord → Option Nat → Option Nat → Prop
  | .part, size₁, size₂ => ∃ m₁ m₂, size₁ = some m₁ ∧ size₂ = some m₂ ∧ n ≤ m₁ ∧ n + k ≤ m₂
  | .whole, size₁, size₂ => size₁ = some n ∧ size₂ = some (n + k)
  | .untold, size₁, size₂ => size₁ = some n ∧ size₂ = none

/-- In the states `I`, which are not left, a source gives the data from `base` on, so many bytes
further on. In part it does so only if nothing after the data is asked for. -/
def ByteSource.Gives {σ : Type} (src : ByteSource σ) (I : σ → Prop) (data : Bytes)
    (base shift : Nat) (part : Prop) : Prop :=
  ∀ {s : σ} {offset : Nat} (count : Nat), I s → base ≤ offset → offset + shift < Word.modulus →
    (part → offset + count ≤ data.size) →
    ∃ s', src.readFull (offset + shift) count s = (.ok (Bytes.slice data offset count), s') ∧ I s'

/-- Two sources with bytes in common, and a document that is read from both. -/
structure Pairing (σ₁ σ₂ : Type) where
  document : Document
  evaluator : Evaluator
  first : ByteSource σ₁
  second : ByteSource σ₂
  /-- The states in which the first source holds the bytes in common. -/
  First : σ₁ → Prop
  /-- The states in which the second source holds them. -/
  Second : σ₂ → Prop
  /-- The bytes up to the end of those in common. -/
  data : Bytes
  /-- Where the bytes in common begin. -/
  base : Nat
  /-- How many bytes further on they stand in the second source. -/
  shift : Nat
  accord : Accord
  /-- All positions can be counted with words, or at least they are the same. -/
  word : 8 * (data.size + shift) + 72 ≤ Word.modulus ∨ shift = 0 ∧ data.size < Word.modulus
  gives₁ : first.Gives First data base 0 (accord = .part)
  gives₂ : second.Gives Second data base shift (accord = .part)
  sizes : ∀ {s₁ : σ₁} {s₂ : σ₂}, First s₁ → Second s₂ →
    accord.Sizes data.size shift (first.size s₁) (second.size s₂)

namespace Pairing

open ByteSource (InsideAt)
open Decoder (FailsAt ProperExtent)

variable {σ₁ σ₂ : Type} (P : Pairing σ₁ σ₂)

/-- The decoder that reads from the first source. -/
def left : Decoder σ₁ where
  document := P.document
  source := P.first
  evaluator := P.evaluator

/-- The decoder that reads from the second source. -/
def right : Decoder σ₂ where
  document := P.document
  source := P.second
  evaluator := P.evaluator

/-! ## Cursors and failures side by side -/

/-- Where the bytes in common end. -/
def reach : Nat := P.data.size

/-- Two cursors at the same bit, in sources that hold the same bytes, and not before a given place.
A byte that is begun there ends with a word. -/
structure Side (floor : Nat) (c₁ : Cursor σ₁) (c₂ : Cursor σ₂) : Prop where
  first : P.First c₁.source
  second : P.Second c₂.source
  pos : c₂.pos = c₁.pos + 8 * P.shift
  word : c₁.pos + 7 < Word.modulus
  base : 8 * P.base ≤ c₁.pos
  reach : c₁.pos ≤ 8 * P.reach
  floor_le : floor ≤ c₁.pos

/-- If the sources have only some bytes in common, the surroundings end with these or before. -/
def Covers (ctx : Context) : Prop :=
  P.accord = .part → ∃ limit, ctx.limit = some limit ∧ limit ≤ 8 * P.reach

/-- An element opens a structure that has a length. -/
def HasLength (i : Nat) : Prop :=
  ∃ s body, P.document.structureOf? i = some (s, body) ∧ (P.document.length s).isSome

/-- Two failures that a structure with a length raises itself. -/
def Excused (f g : Failure) : Prop :=
  ∃ before j, f.path = before ++ [(P.document.element j).name] ∧ P.HasLength j ∧
    P.left.FailsAt j f.cause ∧ P.right.FailsAt j g.cause

/-- Two failures that differ in their places only. Only if the second source does not tell its size
may the numbers differ with which the data are said to end before a structure; `own` says that the
structure is the one that is being read. -/
structure Matching (own : Prop) (f g : Failure) : Prop where
  path : g.path = f.path
  salvage : g.salvage = f.salvage.map (Value.moved P.shift)
  salvaged : P.shift ≠ 0 → f.Salvaged P.reach
  cause : g.cause = f.cause.moved P.shift ∨
    P.accord = .untold ∧ f.cause.isEndOfInput = true ∧ g.cause.isEndOfInput = true ∧
      (own ∧ f.path = [] ∨ P.Excused f g)

/-- Two results side by side: results in states that `S` relates, failures that match in states that
`E` relates, or the one way in which the second decoder may go astray, in a state that `E` relates
to some state. -/
inductive Outcome {τ₁ τ₂ α β : Type} (S E : τ₁ → τ₂ → Prop) (m : α → β) (own : Prop) :
    EStateM.Result Failure τ₁ α → EStateM.Result Failure τ₂ β → Prop
  | ok (a : α) {s₁ : τ₁} {s₂ : τ₂} : S s₁ s₂ → Outcome S E m own (.ok a s₁) (.ok (m a) s₂)
  | error {f g : Failure} {s₁ : τ₁} {s₂ : τ₂} : P.Matching own f g → E s₁ s₂ →
      Outcome S E m own (.error f s₁) (.error g s₂)
  | tooLarge {r : EStateM.Result Failure τ₁ α} {g : Failure} {s₁ : τ₁} {s₂ : τ₂} : P.shift ≠ 0 →
      g.cause = .malformed .lengthTooLarge → g.Salvaged (P.reach + P.shift) → E s₁ s₂ →
      Outcome S E m own r (.error g s₂)

/-- Two readers side by side, which do not end before a given place. -/
abbrev Reads {α β : Type} (floor : Nat) (m : α → β) (own : Prop)
    (r₁ : EStateM.Result Failure (Cursor σ₁) α) (r₂ : EStateM.Result Failure (Cursor σ₂) β) :
    Prop :=
  P.Outcome (P.Side floor) (P.Side 0) m own r₁ r₂

variable {P}

/-- Positions where the bytes are in common can be moved. -/
theorem movable {pos : Nat} (h : pos ≤ 8 * P.reach) : Movable P.shift pos := by
  have hword := P.word
  unfold Movable
  unfold reach at h
  omega

/-- All bytes in common can be counted with words. -/
theorem reach_lt : P.reach + P.shift < Word.modulus := by
  have hword := P.word
  unfold reach
  omega

namespace Matching

variable {own : Prop} {f g : Failure}

/-- Failures that salvage nothing. -/
theorem of_cause (cause : Cause) : P.Matching own { cause } { cause := cause.moved P.shift } where
  path := rfl
  salvage := rfl
  salvaged := fun _ => .of_none rfl
  cause := Or.inl rfl

theorem of_placeless {cause : Cause} (h : cause.Placeless) :
    P.Matching own { cause } { cause } := by
  have hmatching : P.Matching own { cause } { cause := cause.moved P.shift } := of_cause cause
  rwa [h P.shift] at hmatching

theorem of_calculated {cause : Cause} (h : cause.Calculated) : P.Matching own { cause } { cause } :=
  of_placeless h.placeless

/-- Overflows tell of no place. -/
theorem overflow : P.Matching own { cause := .overflow } { cause := .overflow } :=
  of_placeless fun _ => rfl

theorem imp {own' : Prop} (h : P.Matching own f g) (himp : own → own') : P.Matching own' f g where
  path := h.path
  salvage := h.salvage
  salvaged := h.salvaged
  cause := by
    rcases h.cause with hsame | ⟨huntold, hf, hg, ⟨hown, hpath⟩ | hexcused⟩
    · exact Or.inl hsame
    · exact Or.inr ⟨huntold, hf, hg, Or.inl ⟨himp hown, hpath⟩⟩
    · exact Or.inr ⟨huntold, hf, hg, Or.inr hexcused⟩

theorem endsRepetition (h : P.Matching own f g) :
    g.cause.endsRepetition = f.cause.endsRepetition := by
  have hends {cause : Cause} (hend : cause.isEndOfInput = true) : cause.endsRepetition = true := by
    cases cause with
    | endOfInput => rfl
    | _ => cases hend
  rcases h.cause with hsame | ⟨_, hf, hg, _⟩
  · rw [hsame, Cause.endsRepetition_moved]
  · rw [hends hf, hends hg]

end Matching

namespace Outcome

variable {τ₁ τ₂ α β α' β' : Type} {S S' E : τ₁ → τ₂ → Prop} {m : α → β} {own : Prop}

theorem imp {own' : Prop} {r₁ : EStateM.Result Failure τ₁ α} {r₂ : EStateM.Result Failure τ₂ β}
    (h : P.Outcome S E m own r₁ r₂) (hS : ∀ {s₁ s₂}, S s₁ s₂ → S' s₁ s₂) (hown : own → own') :
    P.Outcome S' E m own' r₁ r₂ := by
  cases h with
  | ok a hs => exact .ok a (hS hs)
  | error hfail hs => exact .error (hfail.imp hown) hs
  | tooLarge hshift hcause hpart hs => exact .tooLarge hshift hcause hpart hs

/-- Sequences are side by side if their steps are. -/
theorem bind {m' : α' → β'} {x : EStateM Failure τ₁ α} {y : EStateM Failure τ₂ β}
    {f : α → EStateM Failure τ₁ α'} {g : β → EStateM Failure τ₂ β'} {s₁ : τ₁} {s₂ : τ₂}
    (hx : P.Outcome S E m own (x s₁) (y s₂))
    (hf : ∀ a s₁' s₂', x s₁ = .ok a s₁' → S s₁' s₂' →
      P.Outcome S' E m' own (f a s₁') (g (m a) s₂')) :
    P.Outcome S' E m' own ((x >>= f) s₁) ((y >>= g) s₂) := by
  generalize hr₁ : x s₁ = r₁ at hx
  generalize hr₂ : y s₂ = r₂ at hx
  cases hx with
  | ok a hs =>
      rw [Reader.bind_of_ok hr₁, Reader.bind_of_ok hr₂]
      exact hf a _ _ hr₁ hs
  | error hfail hs =>
      rw [Reader.bind_of_error hr₁, Reader.bind_of_error hr₂]
      exact .error hfail hs
  | tooLarge hshift hcause hpart hs =>
      rw [Reader.bind_of_error hr₂]
      exact .tooLarge hshift hcause hpart hs

end Outcome

/-! ## Steps of a reader -/

namespace Side

variable {floor : Nat} {c₁ : Cursor σ₁} {c₂ : Cursor σ₂} (hc : P.Side floor c₁ c₂)
include hc

/-- The place where the cursors are. -/
theorem here : P.Side c₁.pos c₁ c₂ := { hc with floor_le := Nat.le_refl _ }

/-- Any place will do if it is the first. -/
theorem anywhere : P.Side 0 c₁ c₂ := { hc with floor_le := Nat.zero_le _ }

/-- Positions up to that of the cursor can be moved. -/
theorem movable : Movable P.shift c₁.pos := Pairing.movable hc.reach

theorem offset : c₂.pos / 8 = c₁.pos / 8 + P.shift := by
  rw [hc.pos, byte_moved]

/-- The second cursor is where the bytes in common are too. -/
theorem right_le : c₂.pos ≤ 8 * (P.reach + P.shift) := by
  have hpos := hc.pos
  have hreach := hc.reach
  omega

/-- Words that are worked out from places stay words where these are moved. -/
theorem word_iff {k : Nat} (hk : k ≤ 71) :
    c₂.pos + k < Word.modulus ↔ c₁.pos + k < Word.modulus := by
  rw [hc.pos, Nat.add_right_comm]
  exact hc.movable.word_iff (by omega)

/-- The byte in which the cursor stands ends with a word on the other side too. -/
theorem word₂ : c₂.pos + 7 < Word.modulus := (hc.word_iff (by decide)).mpr hc.word

/-- The cursors may be moved to a common place. -/
theorem moveTo {stop₁ stop₂ : Nat} (hstop : stop₂ = stop₁ + 8 * P.shift)
    (hword : stop₁ + 7 < Word.modulus) (hreach : stop₁ ≤ 8 * P.reach) (hle : c₁.pos ≤ stop₁) :
    P.Side floor { c₁ with pos := stop₁ } { c₂ with pos := stop₂ } :=
  ⟨hc.first, hc.second, hstop, hword, Nat.le_trans hc.base hle, hreach,
    Nat.le_trans hc.floor_le hle⟩

end Side

section

variable {α α' β β' : Type} {m : α → β} {m' : α' → β'} {own : Prop} {floor : Nat}
  {c₁ : Cursor σ₁} {c₂ : Cursor σ₂} (hc : P.Side floor c₁ c₂)
include hc

theorem fail_placeless_alike {cause : Cause} (h : cause.Placeless) :
    P.Reads floor m own (Reader.fail cause c₁) (Reader.fail cause c₂) :=
  .error (.of_placeless h) hc.anywhere

/-- A calculation that is the same on both sides. -/
theorem ofExcept_alike {x : Except Cause α} {f : α → Reader σ₁ α'} {g : α → Reader σ₂ β'}
    (hx : Calculates x) (hf : ∀ a, P.Reads floor m' own (f a c₁) (g a c₂)) :
    P.Reads floor m' own ((Reader.ofExcept x >>= f) c₁) ((Reader.ofExcept x >>= g) c₂) := by
  cases x with
  | ok a => exact hf a
  | error cause => exact .error (.of_calculated (hx.error rfl)) hc.anywhere

/-- A condition that holds on both sides or on neither. -/
theorem require_alike {p q : Prop} [Decidable p] [Decidable q] (cause : Cause)
    {f : Unit → Reader σ₁ α'} {g : Unit → Reader σ₂ β'} (hpq : q ↔ p)
    (hf : p → P.Reads floor m' own (f () c₁) (g () c₂)) :
    P.Reads floor m' own ((Reader.require p cause >>= f) c₁)
      ((Reader.require q (cause.moved P.shift) >>= g) c₂) := by
  unfold Reader.require
  by_cases hp : p
  · rw [if_pos hp, if_pos (hpq.mpr hp)]
    exact hf hp
  · rw [if_neg hp, if_neg (fun hq => hp (hpq.mp hq))]
    exact .error (.of_cause cause) hc.anywhere

/-- Words are words on both sides, or the two overflow together. -/
theorem word_alike {n₁ n₂ : Nat} {f : Unit → Reader σ₁ α'} {g : Unit → Reader σ₂ β'}
    (hsame : n₂ < Word.modulus ↔ n₁ < Word.modulus)
    (hf : n₁ < Word.modulus → P.Reads floor m' own (f () c₁) (g () c₂)) :
    P.Reads floor m' own ((Reader.requireWord n₁ >>= f) c₁) ((Reader.requireWord n₂ >>= g) c₂) :=
  require_alike hc .overflow hsame hf

theorem aligned_alike {f : Unit → Reader σ₁ α'} {g : Unit → Reader σ₂ β'}
    (hf : c₁.pos % 8 = 0 → P.Reads floor m' own (f () c₁) (g () c₂)) :
    P.Reads floor m' own ((Reader.ensureAligned >>= f) c₁) ((Reader.ensureAligned >>= g) c₂) := by
  have hpos := hc.pos
  change P.Reads floor m' own
    ((Reader.require (c₁.pos % 8 = 0) (.misaligned c₁.pos) >>= f) c₁)
    ((Reader.require (c₂.pos % 8 = 0) (.misaligned c₂.pos) >>= g) c₂)
  rw [hpos]
  exact require_alike hc (.misaligned c₁.pos) (by omega) hf

/-- Both sources give the same bytes. -/
theorem fetch_alike (offset count : Nat) (hbase : P.base ≤ offset) (hoffset : offset ≤ P.reach)
    (hpart : P.accord = .part → offset + count ≤ P.reach) :
    ∃ bytes c₁' c₂', P.left.fetch offset count c₁ = .ok bytes c₁' ∧
      P.right.fetch (offset + P.shift) count c₂ = .ok bytes c₂' ∧ P.Side floor c₁' c₂' ∧
      c₁'.pos = c₁.pos ∧ bytes.size = min count (P.reach - offset) := by
  have hlt := P.reach_lt
  obtain ⟨s₁, h₁, hs₁⟩ := P.gives₁ count hc.first hbase (by omega) hpart
  obtain ⟨s₂, h₂, hs₂⟩ := P.gives₂ count hc.second hbase (by omega) hpart
  rw [Nat.add_zero] at h₁
  refine ⟨Bytes.slice P.data offset count, { c₁ with source := s₁ }, { c₂ with source := s₂ }, ?_,
    ?_, { hc with first := hs₁, second := hs₂ }, rfl, ?_⟩
  · unfold Decoder.fetch
    rw [show P.left.source = P.first from rfl, h₁]
  · unfold Decoder.fetch
    rw [show P.right.source = P.second from rfl, h₂]
  · unfold Bytes.slice reach
    rw [Array.size_extract]
    omega

/-! ## Bytes and bits -/

omit hc in
theorem pos_alike {f : Nat → Reader σ₁ α'} {g : Nat → Reader σ₂ β'}
    (h : P.Reads floor m' own (f c₁.pos c₁) (g c₂.pos c₂)) :
    P.Reads floor m' own ((Reader.pos >>= f) c₁) ((Reader.pos >>= g) c₂) := h

end

theorem fetchChunks_alike {offset count : Nat} (hbase : P.base ≤ offset)
    (hoffset : offset ≤ P.reach) (hpart : P.accord = .part → offset + count ≤ P.reach) :
    ∀ (chunks : Nat) (got : Bytes) {floor : Nat} {c₁ : Cursor σ₁} {c₂ : Cursor σ₂},
    P.Side floor c₁ c₂ → InsideAt P.reach offset got →
    ∃ bytes c₁' c₂', P.left.fetchChunks offset count chunks got c₁ = .ok bytes c₁' ∧
      P.right.fetchChunks (offset + P.shift) count chunks got c₂ = .ok bytes c₂' ∧
      P.Side floor c₁' c₂' ∧ c₁'.pos = c₁.pos ∧ InsideAt P.reach offset bytes
  | 0, got, _, c₁, c₂, hc, hgot => ⟨got, c₁, c₂, rfl, rfl, hc, rfl, hgot⟩
  | chunks + 1, got, _, c₁, c₂, hc, hgot => by
      have hreach := P.reach_lt
      have hplace : offset + got.size ≤ P.reach := by
        rcases hgot with hnone | hin
        · omega
        · exact hin
      unfold Decoder.fetchChunks
      by_cases hlt : got.size < count
      · rw [if_pos hlt, if_pos hlt, Nat.add_right_comm]
        obtain ⟨more, c₁', c₂', h₁, h₂, hc', hpos, hsize⟩ := fetch_alike hc
          (offset + got.size) (min (count - got.size) Decoder.chunk) (by omega)
          (by omega) (fun hp => by have := hpart hp; omega)
        have hnext : InsideAt P.reach offset (got ++ more) := by
          refine hgot.append ?_
          unfold InsideAt
          omega
        rw [Reader.bind_of_ok h₁, Reader.bind_of_ok h₂]
        split
        · exact ⟨_, c₁', c₂', rfl, rfl, hc', hpos, hnext⟩
        · rw [← hpos]
          exact fetchChunks_alike hbase hoffset hpart chunks _ hc' hnext
      · rw [if_neg hlt, if_neg hlt]
        exact ⟨got, c₁, c₂, rfl, rfl, hc, rfl, hgot⟩

section

variable {α α' β β' : Type} {m : α → β} {m' : α' → β'} {own : Prop} {floor : Nat} {ctx : Context}
  {c₁ : Cursor σ₁} {c₂ : Cursor σ₂} (hc : P.Side floor c₁ c₂)
include hc

/-- Both cursors go over bytes in common. -/
theorem advance_alike {count : Nat} (hal : c₁.pos % 8 = 0)
    (hin : count = 0 ∨ c₁.pos / 8 + count ≤ P.reach) (a : α) :
    P.Reads floor id own
      ((Reader.requireWord (c₁.pos + count * 8) >>= fun _ =>
        Reader.moveTo (c₁.pos + count * 8) >>= fun _ => pure a) c₁)
      ((Reader.requireWord (c₂.pos + count * 8) >>= fun _ =>
        Reader.moveTo (c₂.pos + count * 8) >>= fun _ => pure a) c₂) := by
  have hpos := hc.pos
  have hreach := hc.reach
  have hstop : c₁.pos + count * 8 ≤ 8 * P.reach := by omega
  have hmoved : c₂.pos + count * 8 = c₁.pos + count * 8 + 8 * P.shift := by omega
  rw [hmoved]
  refine word_alike hc ((movable hstop).word_iff (by omega)) fun hword => .ok a ?_
  refine hc.moveTo rfl ?_ hstop (by omega)
  unfold Word.modulus at *
  omega

theorem requireRoom_alike {count : Nat} {f : Unit → Reader σ₁ α'} {g : Unit → Reader σ₂ β'}
    (hf : (∀ room, ctx.room c₁.pos = some room → count ≤ room) →
      P.Reads floor m' own (f () c₁) (g () c₂)) :
    P.Reads floor m' own ((Decoder.requireRoom ctx c₁.pos count >>= f) c₁)
      ((Decoder.requireRoom (ctx.moved P.shift) c₂.pos count >>= g) c₂) := by
  unfold Decoder.requireRoom
  rw [hc.offset, hc.pos, Context.room_moved]
  cases hroom : ctx.room c₁.pos with
  | none =>
      refine hf fun room h => ?_
      rw [hroom] at h
      cases h
  | some room =>
      refine require_alike hc (.overrun (c₁.pos / 8) count room) Iff.rfl fun hle => ?_
      refine hf fun room' h => ?_
      cases hroom.symm.trans h
      exact hle

/-- Both sides take the same bytes or lack the same. -/
theorem take_alike (hctx : P.Covers ctx) (i count : Nat) :
    P.Reads floor id own (P.left.take ctx i count c₁)
      (P.right.take (ctx.moved P.shift) i count c₂) := by
  have hbase := hc.base
  have hreach := hc.reach
  unfold Decoder.take
  refine aligned_alike hc fun hal => pos_alike (requireRoom_alike hc fun hroom => ?_)
  have hpart : P.accord = .part → c₁.pos / 8 + count ≤ P.reach := by
    intro hp
    obtain ⟨limit, hlimit, hle⟩ := hctx hp
    have := hroom ((limit - c₁.pos) / 8) (by unfold Context.room; rw [hlimit]; rfl)
    omega
  obtain ⟨bytes, c₁', c₂', h₁, h₂, hc', hpos, hin⟩ := fetchChunks_alike (by omega) (by omega) hpart
    (count / Decoder.chunk + 1) #[] hc (Or.inl rfl)
  rw [Reader.bind_of_ok h₁, hc.offset, Reader.bind_of_ok h₂]
  by_cases hlt : bytes.size < count
  · rw [if_pos hlt, if_pos hlt]
    refine .error ⟨rfl, ?_, fun _ => ?_, Or.inl rfl⟩ hc'.anywhere
    · unfold Decoder.shortfall
      dsimp only
      split
      · rfl
      · rfl
    · intro part hpart
      unfold Decoder.shortfall at hpart
      dsimp only at hpart
      split at hpart
      · cases hpart
      · rename_i hsome
        cases hpart
        exact hin.resolve_left hsome
  · rw [if_neg hlt, if_neg hlt, ← hpos, show c₂.pos = c₂'.pos by rw [hc.pos, hc'.pos, hpos]]
    refine advance_alike hc' (by omega) ?_ bytes
    rw [hpos]
    rcases hin with hnone | hin
    · omega
    · omega

theorem requireBits_alike {stop needed : Nat} {f : Unit → Reader σ₁ α'} {g : Unit → Reader σ₂ β'}
    (hf : (∀ limit, ctx.limit = some limit → stop ≤ limit) →
      P.Reads floor m' own (f () c₁) (g () c₂)) :
    P.Reads floor m' own ((Decoder.requireBits ctx c₁.pos stop needed >>= f) c₁)
      ((Decoder.requireBits (ctx.moved P.shift) c₂.pos (stop + 8 * P.shift) needed >>= g) c₂) := by
  unfold Decoder.requireBits
  rw [hc.offset, hc.pos]
  cases hlimit : ctx.limit with
  | none =>
      simp only [Context.moved, hlimit, Option.map_none]
      refine hf fun limit h => ?_
      rw [hlimit] at h
      cases h
  | some limit =>
      simp only [Context.moved, hlimit, Option.map_some, Nat.add_sub_add_right]
      refine require_alike hc
        (.overrun (c₁.pos / 8) needed ((limit - c₁.pos) / 8)) (by omega) fun hle => ?_
      refine hf fun limit' h => ?_
      cases hlimit.symm.trans h
      exact hle

theorem takeBits_alike (hctx : P.Covers ctx) {count : Nat} (hcount : count ≤ 64) :
    P.Reads floor id own (P.left.takeBits ctx count c₁)
      (P.right.takeBits (ctx.moved P.shift) count c₂) := by
  have hbase := hc.base
  have hreach := hc.reach
  have hstop : c₂.pos + count = c₁.pos + count + 8 * P.shift := by rw [hc.pos, Nat.add_right_comm]
  unfold Decoder.takeBits
  refine pos_alike (word_alike hc (hc.word_iff (k := count + 7) (by omega)) fun hword => ?_)
  rw [hstop, Word.bytesOfBits_moved, hc.offset, Nat.add_sub_add_right]
  unfold Word.bytesOfBits
  generalize hn : (c₁.pos + count + 7) / 8 - c₁.pos / 8 = needed
  refine requireBits_alike hc fun hlimit => ?_
  -- bits inside the surroundings lie in bytes inside them
  have hpart : P.accord = .part → c₁.pos / 8 + needed ≤ P.reach := by
    intro hp
    obtain ⟨limit, hl, hle⟩ := hctx hp
    have hfits := hlimit limit hl
    omega
  obtain ⟨bytes, c₁', c₂', h₁, h₂, hc', hpos, hsize⟩ := fetch_alike hc _ _ (by omega) (by omega)
    hpart
  rw [Reader.bind_of_ok h₁, Reader.bind_of_ok h₂]
  refine require_alike hc' (.endOfInput (c₁.pos / 8) needed bytes.size) Iff.rfl fun hall => ?_
  have hfirst : c₂.pos % 8 = c₁.pos % 8 := by
    rw [hc.pos]
    omega
  rw [hfirst, hc.pos, Nat.add_sub_add_right]
  exact .ok (bytes.bitsToNat _ _) (hc'.moveTo rfl hword (by omega) (by omega))

theorem takeInteger_alike (hctx : P.Covers ctx) (i bits : Nat) (big : Bool) :
    P.Reads floor id own (P.left.takeInteger ctx i bits big c₁)
      (P.right.takeInteger (ctx.moved P.shift) i bits big c₂) := by
  unfold Decoder.takeInteger
  refine require_alike hc (.malformed (.integerWidth bits)) Iff.rfl fun hbits => ?_
  refine pos_alike ?_
  rw [show c₂.pos % 8 = c₁.pos % 8 by rw [hc.pos]; omega]
  by_cases hwhole : c₁.pos % 8 = 0 ∧ bits % 8 = 0
  · rw [if_pos hwhole, if_pos hwhole]
    exact (take_alike hc hctx i (bits / 8)).bind fun bytes _ _ _ hc' => .ok (bytes.toNat big) hc'
  · rw [if_neg hwhole, if_neg hwhole]
    exact takeBits_alike hc hctx hbits.2

end

/-! ## Terminated bytes -/

theorem scan_alike (terminator : Bytes) {offset cap : Nat} (hbase : P.base ≤ offset)
    (hoffset : offset ≤ P.reach) (hpart : P.accord = .part → offset + cap ≤ P.reach) :
    ∀ (windows : Nat) (text : Bytes) {floor : Nat} {c₁ : Cursor σ₁} {c₂ : Cursor σ₂},
    P.Side floor c₁ c₂ → InsideAt P.reach offset text → text.size ≤ cap →
    ∃ found c₁' c₂', P.left.scan terminator offset cap windows text c₁ = .ok found c₁' ∧
      P.right.scan terminator (offset + P.shift) cap windows text c₂ = .ok found c₂' ∧
      P.Side floor c₁' c₂' ∧ c₁'.pos = c₁.pos ∧
      (found.consumed = 0 ∨ offset + found.consumed ≤ P.reach)
  | 0, text, _, c₁, c₂, hc, htext, _ => ⟨_, c₁, c₂, rfl, rfl, hc, rfl, htext⟩
  | windows + 1, text, _, c₁, c₂, hc, htext, hcap => by
      have hreach := P.reach_lt
      have hplace : offset + text.size ≤ P.reach := by
        rcases htext with hnone | hin
        · omega
        · exact hin
      unfold Decoder.scan
      dsimp only
      rw [Reader.require_of hcap, Reader.require_of hcap]
      by_cases hlt : min (cap - text.size) Decoder.window < terminator.size
      · rw [if_pos hlt, if_pos hlt]
        exact ⟨_, c₁, c₂, rfl, rfl, hc, rfl, htext⟩
      · rw [if_neg hlt, if_neg hlt, Nat.add_right_comm]
        obtain ⟨got, c₁', c₂', h₁, h₂, hc', hpos, hsize⟩ := fetch_alike hc
          (offset + text.size) (min (cap - text.size) Decoder.window) (by omega)
          (by omega) (fun hp => by have := hpart hp; omega)
        rw [Reader.bind_of_ok h₁, Reader.bind_of_ok h₂]
        have hunits := Nat.div_mul_le_self got.size terminator.size
        cases hfind : got.findUnit? terminator.size (got.size / terminator.size)
            (· == terminator) with
        | some i =>
            have hunit := Decoder.findUnit?_le hfind
            dsimp only
            rw [Reader.requireWord_of (by omega), Reader.requireWord_of (by omega)]
            exact ⟨_, c₁', c₂', rfl, rfl, hc', hpos, Or.inr (by dsimp only; omega)⟩
        | none =>
            have hnext : InsideAt P.reach offset
                (text ++ got.extract 0 (got.size / terminator.size * terminator.size)) := by
              refine htext.append (InsideAt.extract ?_)
              unfold InsideAt
              omega
            dsimp only
            rw [Reader.requireWord_of (by omega), Reader.requireWord_of (by omega)]
            split
            · exact ⟨_, c₁', c₂', rfl, rfl, hc', hpos, hnext⟩
            · rw [← hpos]
              refine scan_alike terminator hbase hoffset hpart windows _ hc' hnext ?_
              rw [Array.size_append, Array.size_extract]
              omega

section

variable {own : Prop} {floor : Nat} {ctx : Context} {c₁ : Cursor σ₁} {c₂ : Cursor σ₂}
  (hc : P.Side floor c₁ c₂)
include hc

theorem takeTerminated_alike (hctx : P.Covers ctx) (hal : c₁.pos % 8 = 0) (terminator : Bytes)
    (max : Option Nat) :
    P.Reads floor id own (P.left.takeTerminated ctx terminator max c₁)
      (P.right.takeTerminated (ctx.moved P.shift) terminator max c₂) := by
  have hbase := hc.base
  have hreach := hc.reach
  unfold Decoder.takeTerminated
  refine pos_alike ?_
  rw [show (ctx.moved P.shift).room c₂.pos = ctx.room c₁.pos by rw [hc.pos, Context.room_moved]]
  -- the scan looks ahead only as far as the surroundings go
  have hpart : P.accord = .part →
      c₁.pos / 8 + Decoder.scanCap max (ctx.room c₁.pos) ≤ P.reach := by
    intro hp
    obtain ⟨limit, hlimit, hle⟩ := hctx hp
    have hroom : ctx.room c₁.pos = some ((limit - c₁.pos) / 8) := by
      unfold Context.room
      rw [hlimit]
      rfl
    have hcap : Decoder.scanCap max (ctx.room c₁.pos) ≤ (limit - c₁.pos) / 8 := by
      rw [hroom]
      exact Nat.min_le_right _ _
    omega
  obtain ⟨found, c₁', c₂', h₁, h₂, hc', hpos, hin⟩ := scan_alike terminator (by omega)
    (by omega) hpart (Decoder.scanCap max (ctx.room c₁.pos) / Decoder.window + 2) #[] hc
    (Or.inl rfl) (Nat.zero_le _)
  rw [Reader.bind_of_ok h₁, hc.offset, Reader.bind_of_ok h₂]
  have hcause : Decoder.nothingThere (ctx.room c₁.pos) (c₁.pos / 8 + P.shift) terminator.size =
      (Decoder.nothingThere (ctx.room c₁.pos) (c₁.pos / 8) terminator.size).moved P.shift := by
    unfold Decoder.nothingThere
    split
    · rfl
    · rfl
  rw [hcause]
  refine require_alike hc' _ Iff.rfl fun _ => ?_
  rw [← hpos, show c₂.pos = c₂'.pos by rw [hc.pos, hc'.pos, hpos]]
  exact advance_alike hc' (by omega) (by rw [hpos]; exact hin) found.text

/-! ## Fields -/

theorem finishLeaf_alike {start₁ start₂ : Nat} (hstart : start₂ = start₁ + 8 * P.shift)
    (hle : start₁ ≤ c₁.pos) (i : Nat) (payload : Payload) :
    P.Reads floor (Value.moved P.shift) own (Decoder.finishLeaf i start₁ payload c₁)
      (Decoder.finishLeaf i start₂ payload c₂) := by
  have hpos := hc.pos
  unfold Decoder.finishLeaf
  refine pos_alike ?_
  rw [Reader.requireWord_of hc.word, Reader.requireWord_of hc.word₂, Reader.require_of hle,
    Reader.require_of (by omega), hstart, hpos, Value.leaf_moved]
  exact .ok _ hc

/-- A field that is not accepted is salvaged, and lies inside. -/
theorem finish_match_alike {start : Nat} (hstart : start = floor + 8 * P.shift) (i : Nat)
    (payload : Payload) {accepts : Value → Bool}
    (haccepts : ∀ k v, accepts (Value.moved k v) = accepts v) :
    P.Reads floor (Value.moved P.shift) own
      ((Decoder.finishLeaf i floor payload >>= fun v =>
        P.left.requireMatch i (accepts v) v) c₁)
      ((Decoder.finishLeaf i start payload >>= fun v =>
        P.right.requireMatch i (accepts v) v) c₂) := by
  have hle := hc.floor_le
  refine (finishLeaf_alike hc hstart hle i payload).bind fun v c₁' c₂' hleaf hc' => ?_
  have hinside : v.stop ≤ P.reach := by
    have hreach := hc.reach
    obtain ⟨rfl, _⟩ := Decoder.finishLeaf_ok hleaf
    change floor / 8 + ((c₁.pos + 7) / 8 - floor / 8) ≤ P.reach
    omega
  unfold Decoder.requireMatch
  rw [haccepts, show P.right.document = P.left.document from rfl]
  split
  · refine .error ⟨rfl, rfl, fun hshift => ?_, Or.inl ?_⟩ hc'.anywhere
    · intro part hpart
      cases hpart
      exact hinside
    · rw [Value.payload_moved]
      rfl
  · exact .ok v hc'

theorem readNothing_alike (i : Nat) :
    P.Reads floor (Value.moved P.shift) own (Decoder.readNothing i c₁)
      (Decoder.readNothing i c₂) := by
  unfold Decoder.readNothing
  exact pos_alike (finishLeaf_alike hc hc.pos (Nat.le_refl _) i .none)

theorem takeNumber_alike (hctx : P.Covers ctx) (i bits : Nat) (big : Bool) :
    P.Reads floor id own (P.left.takeNumber ctx i bits big c₁)
      (P.right.takeNumber (ctx.moved P.shift) i bits big c₂) := by
  unfold Decoder.takeNumber
  rw [show P.right.document = P.left.document from rfl]
  cases P.left.document.numberType i with
  | integer =>
      exact (takeInteger_alike hc hctx i bits big).bind fun raw _ _ _ hc' => .ok _ hc'
  | float =>
      exact require_alike hc (.malformed (.floatWidth bits)) Iff.rfl fun _ =>
        (take_alike hc hctx i (bits / 8)).bind fun bytes _ _ _ hc' => .ok _ hc'

theorem readNumber_alike (hctx : P.Covers ctx) (i : Nat) (body : NumberBody) :
    P.Reads c₁.pos (Value.moved P.shift) own (P.left.readNumber ctx i body c₁)
      (P.right.readNumber (ctx.moved P.shift) i body c₂) := by
  unfold Decoder.readNumber
  rw [Decoder.lengthBits_moved]
  exact pos_alike <| ofExcept_alike hc.here (P.left.lengthBits_calculates ctx i) fun bits =>
    ofExcept_alike hc.here (P.left.bigEndian_calculates i) fun big =>
      (takeNumber_alike hc.here hctx i bits big).bind fun payload _ _ _ hc' =>
        finish_match_alike hc' hc.pos i payload body.accepts_moved

theorem readOffset_alike (hctx : P.Covers ctx) (i : Nat) :
    P.Reads c₁.pos (Value.moved P.shift) own (P.left.readOffset ctx i c₁)
      (P.right.readOffset (ctx.moved P.shift) i c₂) := by
  unfold Decoder.readOffset
  rw [Decoder.lengthBits_moved]
  exact pos_alike <| ofExcept_alike hc.here (P.left.lengthBits_calculates ctx i) fun bits =>
    ofExcept_alike hc.here (P.left.bigEndian_calculates i) fun big =>
      (takeInteger_alike hc.here hctx i bits big).bind fun raw _ _ _ hc' =>
        finishLeaf_alike hc' hc.pos hc'.floor_le i (.offset raw)

theorem readBinary_alike (hctx : P.Covers ctx) (i : Nat) (body : BinaryBody) :
    P.Reads c₁.pos (Value.moved P.shift) own (P.left.readBinary ctx i body c₁)
      (P.right.readBinary (ctx.moved P.shift) i body c₂) := by
  unfold Decoder.readBinary
  rw [Decoder.lengthBytes_moved]
  exact pos_alike <| ofExcept_alike hc.here (P.left.lengthBytes_calculates ctx i) fun length =>
    (take_alike hc.here hctx i length).bind fun bytes _ _ _ hc' =>
      finish_match_alike hc' hc.pos i (.bytes bytes) body.accepts_moved

theorem takeString_alike (hctx : P.Covers ctx) (hal : c₁.pos % 8 = 0) (i : Nat) (body : StringBody)
    (encoding : Option Text.Encoding) :
    P.Reads floor id own (P.left.takeString ctx i body encoding c₁)
      (P.right.takeString (ctx.moved P.shift) i body encoding c₂) := by
  have hdelimited (terminator : Bytes) :
      P.Reads floor id own (P.left.takeDelimited ctx i terminator c₁)
        (P.right.takeDelimited (ctx.moved P.shift) i terminator c₂) := by
    unfold Decoder.takeDelimited
    rw [Decoder.lengthBytes?_moved]
    exact ofExcept_alike hc (P.left.lengthBytes?_calculates ctx i) fun max =>
      takeTerminated_alike hc hctx hal terminator max
  unfold Decoder.takeString
  rw [show P.right.document = P.left.document from rfl]
  cases P.left.document.stringType i with
  | fixedLength =>
      dsimp only
      unfold Decoder.takeFixed
      rw [Decoder.lengthBytes_moved]
      exact ofExcept_alike hc (P.left.lengthBytes_calculates ctx i) fun length =>
        (take_alike hc hctx i length).bind fun bytes _ _ _ hc' => .ok _ hc'
  | pascal =>
      dsimp only
      unfold Decoder.takeCounted
      rw [Decoder.lengthBytes_moved]
      exact ofExcept_alike hc (P.left.lengthBytes_calculates ctx i) fun width =>
        require_alike hc (.malformed (.countWidth width)) Iff.rfl fun _ =>
          ofExcept_alike hc (P.left.bigEndian_calculates i) fun big =>
            (take_alike hc hctx i width).bind fun count _ _ _ hc' =>
              take_alike hc' hctx i (count.toNat big)
  | zeroTerminated => exact hdelimited _
  | delimiterTerminated => exact hdelimited _

theorem readString_alike (hctx : P.Covers ctx) (i : Nat) (body : StringBody) :
    P.Reads c₁.pos (Value.moved P.shift) own (P.left.readString ctx i body c₁)
      (P.right.readString (ctx.moved P.shift) i body c₂) := by
  unfold Decoder.readString
  exact aligned_alike hc.here fun hal => pos_alike <|
    (takeString_alike hc.here hctx hal i body _).bind fun bytes _ _ _ hc' =>
      ofExcept_alike hc' (Decoder.decodeText_calculates _ _ bytes) fun text =>
        finish_match_alike hc' hc.pos i (.text text) body.accepts_moved

/-- Without scripts a field that needs one fails, whatever the data are. -/
theorem readCustom_alike (i : Nat) (body : CustomBody) :
    P.Reads floor (Value.moved P.shift) own (P.left.readCustom ctx i body c₁)
      (P.right.readCustom (ctx.moved P.shift) i body c₂) := by
  unfold Decoder.readCustom
  refine aligned_alike hc fun _ => ?_
  cases body.script.bind (·.target) with
  | none => exact fail_placeless_alike hc fun _ => rfl
  | some script =>
      dsimp only
      rw [Decoder.lengthBytes?_moved]
      exact pos_alike <| ofExcept_alike hc (P.left.lengthBytes?_calculates ctx i) fun hint =>
        .error (.of_placeless fun _ => rfl) hc.anywhere

end

end Pairing

end BinaryGrammar
