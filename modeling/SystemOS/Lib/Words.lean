/-
  SystemOS.Lib.Words — fields of machine words.

  Key results:
    * `mask_shift`                     — masking a field and shifting it down is a division and a
      remainder.
    * `or_shift`                       — two fields put side by side.
    * `lowByte_word`, `highByte_word`  — the two bytes of a word that was put together from them.
-/
import Mathlib.Algebra.Order.Ring.Nat
import Mathlib.Data.Nat.Bits

namespace SystemOS.Lib.Words

/-- The field of `w` bits at bit `k`. -/
theorem mask_shift (n w k : Nat) : (n &&& ((2 ^ w - 1) <<< k)) >>> k = n / 2 ^ k % 2 ^ w := by
  rw [Nat.shiftRight_and_distrib, Nat.shiftLeft_shiftRight, Nat.shiftRight_eq_div_pow,
    Nat.and_two_pow_sub_one_eq_mod]

/-- A field of `k` bits with another one above it. -/
theorem or_shift {lo k : Nat} (hi : Nat) (h : lo < 2 ^ k) : lo ||| (hi <<< k) = lo + 2 ^ k * hi := by
  rw [Nat.or_comm, ← Nat.shiftLeft_add_eq_or_of_lt h, Nat.shiftLeft_eq, Nat.add_comm, Nat.mul_comm]

/-- Every bit of the mask of a byte is set. -/
theorem byteMask_bit {i : Nat} (hi : i < 8) : (255#8)[i] = true := by
  rw [show (255#8) = BitVec.allOnes 8 from rfl, BitVec.getElem_allOnes]

theorem lowByte_word (lo hi : UInt8) :
    ((lo.toUInt16 ||| (hi.toUInt16 <<< 8)) &&& 0xFF).toUInt8 = lo := by
  apply UInt8.toBitVec_inj.mp
  simp
  ext i hlt
  simp [byteMask_bit hlt]

theorem highByte_word (lo hi : UInt8) :
    (((lo.toUInt16 ||| (hi.toUInt16 <<< 8)) >>> 8) &&& 0xFF).toUInt8 = hi := by
  apply UInt8.toBitVec_inj.mp
  simp
  ext i hlt
  have h16 : 8 + i < 16 := by omega
  have h16' : i < 16 := by omega
  simp [byteMask_bit hlt, h16, h16', BitVec.getLsbD_eq_getElem hlt]

/-- A byte widened to a word. -/
theorem lowByte_byte (b : UInt8) : (b.toUInt16 &&& 0xFF).toUInt8 = b := by
  have h := lowByte_word b 0
  simpa using h

end SystemOS.Lib.Words
