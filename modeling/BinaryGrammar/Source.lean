import BinaryGrammar.Number.Word
import BinaryGrammar.Text.Hex

/-!
# Byte sources

A decoder reads bytes at offsets from a source, which may have a state of its own, may give fewer
bytes than were asked for, and may fail. No bytes mean that the input ends there. An interrupted
read is tried again by `readFull`; a source promises through `patience` that it cannot be
interrupted forever, so that `readFull` ends. It goes on only as long as its places are words.
-/

set_option autoImplicit false

namespace BinaryGrammar

/-- What one read gives. -/
inductive ReadResult where
  | bytes (bytes : Bytes)
  | interrupted (reason : String)
  | failed (reason : String)
  deriving DecidableEq, Repr

/-- Why bytes could not be read. -/
inductive ReadError where
  /-- The source fails for a reason of its own. -/
  | failed (reason : String)
  /-- The place of the next byte is no word. -/
  | overflow
  deriving DecidableEq, Repr

/-- The wording of each cause. -/
def ReadError.message : ReadError → String
  | failed reason => reason
  | overflow => "arithmetic overflow"

/-- A source of bytes with states of type `σ`. -/
structure ByteSource (σ : Type) where
  /-- Read at most so many bytes at an offset. -/
  readAt : σ → Nat → Nat → ReadResult × σ
  /-- The number of bytes, if it is known. -/
  size : σ → Option Nat
  /-- A bound on how often reads can be interrupted in a row. -/
  patience : σ → Nat
  readAt_size_le : ∀ {s s' : σ} {offset count : Nat} {bytes : Bytes},
    readAt s offset count = (.bytes bytes, s') → bytes.size ≤ count
  patience_lt : ∀ {s s' : σ} {offset count : Nat} {reason : String},
    readAt s offset count = (.interrupted reason, s') → patience s' < patience s

namespace ByteSource

variable {σ : Type}

/-- Go on reading after `got` until there are `count` bytes or the input ends. -/
def readFullFrom (src : ByteSource σ) (offset count : Nat) (got : Bytes) (s : σ) :
    Except ReadError Bytes × σ :=
  if got.size < count then
    if offset + got.size < Word.modulus then
      match _h : src.readAt s (offset + got.size) (count - got.size) with
      | (.bytes more, s') =>
        if more.size = 0 then (.ok got, s') else readFullFrom src offset count (got ++ more) s'
      | (.interrupted _, s') => readFullFrom src offset count got s'
      | (.failed reason, s') => (.error (.failed reason), s')
    else (.error .overflow, s)
  else (.ok got, s)
  termination_by (count - got.size, src.patience s)
  decreasing_by
    · rw [Array.size_append]
      exact Prod.Lex.left _ _ (by omega)
    · exact Prod.Lex.right _ (src.patience_lt _h)

/-- Read `count` bytes at an offset, or all there are from it on. -/
def readFull (src : ByteSource σ) (offset count : Nat) (s : σ) : Except ReadError Bytes × σ :=
  src.readFullFrom offset count #[] s

end ByteSource

namespace Bytes

/-- The bytes at an offset, at most so many. -/
def slice (data : Bytes) (offset count : Nat) : Bytes := data.extract offset (offset + count)

theorem size_slice_le (data : Bytes) (offset count : Nat) :
    (slice data offset count).size ≤ count := by
  unfold slice
  rw [Array.size_extract]
  omega

end Bytes

namespace ByteSource

/-- Bytes in memory. -/
def plain : ByteSource Bytes where
  readAt data offset count := (.bytes (Bytes.slice data offset count), data)
  size data := some data.size
  patience _ := 0
  readAt_size_le h := by
    simp only [Prod.mk.injEq, ReadResult.bytes.injEq] at h
    exact h.1 ▸ Bytes.size_slice_le ..
  patience_lt h := by simp at h

/-- Bytes in memory whose number is not told. -/
def unsized : ByteSource Bytes :=
  { plain with size := fun _ => none }

/-- Bytes in memory that come at most three at a time, every second read being interrupted. The
state counts the reads. -/
def choppy : ByteSource (Bytes × Nat) where
  readAt s offset count :=
    if s.2 % 2 = 1 then (.interrupted "again", (s.1, s.2 + 1))
    else (.bytes (Bytes.slice s.1 offset (min count 3)), (s.1, s.2 + 1))
  size s := some s.1.size
  patience s := s.2 % 2
  readAt_size_le h := by
    split at h
    · simp at h
    · simp only [Prod.mk.injEq, ReadResult.bytes.injEq] at h
      exact h.1 ▸ Nat.le_trans (Bytes.size_slice_le ..) (Nat.min_le_left _ 3)
  patience_lt h := by
    split at h
    · rename_i odd
      simp only [Prod.mk.injEq] at h
      rw [← h.2]
      simp only
      omega
    · simp at h

/-- Bytes in memory, with reads that reach beyond a bound failing. -/
def failing (bound : Nat) : ByteSource Bytes where
  readAt data offset count :=
    if bound < offset + count then (.failed "boom", data)
    else (.bytes (Bytes.slice data offset count), data)
  size data := some data.size
  patience _ := 0
  readAt_size_le h := by
    split at h
    · simp at h
    · simp only [Prod.mk.injEq, ReadResult.bytes.injEq] at h
      exact h.1 ▸ Bytes.size_slice_le ..
  patience_lt h := by
    split at h <;> simp at h

end ByteSource

end BinaryGrammar
