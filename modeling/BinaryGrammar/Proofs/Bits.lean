import Mathlib
import BinaryGrammar.Decode.Bytes

/-!
# Bytes and bits

There are two readings of a number in some bytes, one that goes from byte to byte and one that goes
from bit to bit. With the first byte highest they are the same, and with the last byte highest the
first is that of the bytes in reverse order. So the bits alone say which number stands in a range of
the data, whichever way it is fetched.
-/

set_option autoImplicit false

namespace BinaryGrammar.Bytes

variable {data bytes : Bytes}

/-! ## Bits -/

theorem bitsToNat_succ (bytes : Bytes) (first count : Nat) :
    bytes.bitsToNat first (count + 1) =
      bytes.bitsToNat first count * 2 + bytes.bit (first + count) := by
  unfold bitsToNat
  rw [List.range_succ, List.foldl_append]
  rfl

/-- The number depends on the bits in the range only, not on where they stand. -/
theorem bitsToNat_congr {a b : Bytes} {i j count : Nat}
    (h : ∀ k < count, a.bit (i + k) = b.bit (j + k)) :
    a.bitsToNat i count = b.bitsToNat j count := by
  induction count with
  | zero => rfl
  | succ count ih =>
      rw [bitsToNat_succ, bitsToNat_succ, ih fun k hk => h k (by omega), h count (by omega)]

/-- A bit of a part of the data is a bit of the data. -/
theorem bit_extract {start stop k : Nat} (hstop : stop ≤ data.size) (hk : k < 8 * (stop - start)) :
    bit (data.extract start stop) k = data.bit (8 * start + k) := by
  have hbyte : (8 * start + k) / 8 = start + k / 8 := by omega
  have hbit : (8 * start + k) % 8 = k % 8 := by omega
  have hget : (data.extract start stop).getD (k / 8) 0 = data.getD (start + k / 8) 0 := by
    rw [Array.getD_eq_getD_getElem?, Array.getD_eq_getD_getElem?, Array.getElem?_extract,
      if_pos (by omega)]
  unfold bit
  rw [hbyte, hbit, hget]

theorem bitsToNat_extract {start stop first count : Nat} (hstop : stop ≤ data.size)
    (hcount : first + count ≤ 8 * (stop - start)) :
    bitsToNat (data.extract start stop) first count = data.bitsToNat (8 * start + first) count := by
  refine bitsToNat_congr fun k hk => ?_
  rw [bit_extract hstop (by omega), Nat.add_assoc]

/-! ## Bytes -/

/-- After some bits of a byte, the number ends with what these leave of the byte. -/
theorem bitsToNat_byteBits {first count : Nat} (h : (first + count) % 8 = 0) : ∀ k ≤ 8,
    bytes.bitsToNat first (count + k) = bytes.bitsToNat first count * 2 ^ k +
      (bytes.getD ((first + count) / 8) 0).toNat / 2 ^ (8 - k)
  | 0, _ => by
      have hlt := (bytes.getD ((first + count) / 8) 0).toNat_lt
      rw [Nat.pow_zero, Nat.mul_one, Nat.div_eq_of_lt hlt]
      rfl
  | k + 1, hk => by
      have hbit : bytes.bit (first + (count + k)) =
          (bytes.getD ((first + count) / 8) 0).toNat / 2 ^ (7 - k) % 2 := by
        unfold bit
        rw [Nat.shiftRight_eq_div_pow]
        rw [show (first + (count + k)) / 8 = (first + count) / 8 by omega,
          show (first + (count + k)) % 8 = k by omega]
      have hhalf : (bytes.getD ((first + count) / 8) 0).toNat / 2 ^ (8 - k) =
          (bytes.getD ((first + count) / 8) 0).toNat / 2 ^ (7 - k) / 2 := by
        rw [Nat.div_div_eq_div_mul, ← Nat.pow_succ, show (7 - k).succ = 8 - k by omega]
      rw [← Nat.add_assoc, bitsToNat_succ, bitsToNat_byteBits h k (by omega), hbit, hhalf,
        Nat.pow_succ, ← Nat.mul_assoc, show 8 - (k + 1) = 7 - k by omega]
      omega

/-- Eight bits that make up a byte count as the byte does. -/
theorem bitsToNat_byte {first count : Nat} (h : (first + count) % 8 = 0) :
    bytes.bitsToNat first (count + 8) =
      bytes.bitsToNat first count * 256 + (bytes.getD ((first + count) / 8) 0).toNat := by
  simpa only [Nat.sub_self, Nat.pow_zero, Nat.div_one, Nat.reducePow] using
    bitsToNat_byteBits h 8 (by decide)

theorem toNat_big_eq_bits (bytes : Bytes) :
    bytes.toNat true = bytes.bitsToNat 0 (8 * bytes.size) := by
  unfold toNat
  rw [if_pos rfl]
  refine Array.foldl_induction (motive := fun k n => n = bytes.bitsToNat 0 (8 * k)) rfl ?_
  intro k n hn
  have hbyte : bytes.bitsToNat 0 (8 * k + 8) = _ := bitsToNat_byte (by omega)
  rw [show 8 * (k.val + 1) = 8 * k + 8 by omega, hbyte, hn, Nat.zero_add,
    Nat.mul_div_cancel_left _ (by decide), Array.getD_eq_getD_getElem?,
    Array.getElem?_eq_getElem k.isLt]
  rfl

theorem toNat_little_eq_reverse (bytes : Bytes) :
    bytes.toNat false = toNat true bytes.reverse := by
  unfold toNat
  rw [if_neg (by decide), if_pos rfl, Array.foldl_reverse]

/-! ## Integers in the data -/

/-- The integer in the bits between two positions: the first bit is the highest, except that in
whole bytes in little order the last byte is. -/
def integerAt (data : Bytes) (big : Bool) (start stop : Nat) : Nat :=
  if big = false ∧ start % 8 = 0 ∧ stop % 8 = 0 then
    bitsToNat (data.extract (start / 8) (stop / 8)).reverse 0 (stop - start)
  else data.bitsToNat start (stop - start)

/-- Bytes of the data write the integer that stands there. -/
theorem toNat_extract {big : Bool} {start stop : Nat} (hal : start % 8 = 0) (hal' : stop % 8 = 0)
    (hstop : stop ≤ 8 * data.size) :
    toNat big (data.extract (start / 8) (stop / 8)) = data.integerAt big start stop := by
  have hsize : (data.extract (start / 8) (stop / 8)).size = stop / 8 - start / 8 := by
    rw [Array.size_extract]
    omega
  unfold integerAt
  cases big with
  | false =>
      rw [if_pos ⟨rfl, hal, hal'⟩, toNat_little_eq_reverse, toNat_big_eq_bits, Array.size_reverse,
        hsize]
      congr 1
      omega
  | true =>
      rw [if_neg (by simp), toNat_big_eq_bits, hsize, bitsToNat_extract (by omega) (by omega)]
      congr 1 <;> omega

/-- Bits in bytes of the data write the integer that stands there. -/
theorem bitsToNat_slice {big : Bool} {start stop offset count : Nat}
    (hoffset : offset = start / 8) (hle : start ≤ stop) (hcount : stop ≤ 8 * (offset + count))
    (hsize : offset + count ≤ data.size) (horder : big = true ∨ start % 8 ≠ 0 ∨ stop % 8 ≠ 0) :
    bitsToNat (slice data offset count) (start % 8) (stop - start) =
      data.integerAt big start stop := by
  unfold integerAt slice
  rw [if_neg (by rcases horder with h | h | h <;> simp [h])]
  rw [bitsToNat_extract hsize (by omega), hoffset, Nat.div_add_mod]

end BinaryGrammar.Bytes
