/-
  SystemOS.Lib.LittleEndian — arrays of 32-bit integers as bytes in memory.

  Key results:
    * `encode_length` — an array takes four bytes an element.
    * `decode_encode` — the bytes of an array are read back as that array.
-/
import Mathlib.Algebra.Order.Ring.Int

namespace SystemOS.Lib.LittleEndian

/-- The bytes of an `int`, least significant first. -/
def bytesOf (x : BitVec 32) : List UInt8 :=
  [UInt8.ofNat x.toNat, UInt8.ofNat (x.toNat / 2 ^ 8), UInt8.ofNat (x.toNat / 2 ^ 16),
    UInt8.ofNat (x.toNat / 2 ^ 24)]

/-- The `int` with these bytes. -/
def intOf (b0 b1 b2 b3 : UInt8) : BitVec 32 :=
  BitVec.ofNat 32 (b0.toNat + 2 ^ 8 * b1.toNat + 2 ^ 16 * b2.toNat + 2 ^ 24 * b3.toNat)

/-- An array in memory. -/
def encode (xs : List (BitVec 32)) : List UInt8 := xs.flatMap bytesOf

/-- The array in a stretch of memory. -/
def decode : List UInt8 → List (BitVec 32)
  | b0 :: b1 :: b2 :: b3 :: bs => intOf b0 b1 b2 b3 :: decode bs
  | _ => []

theorem encode_cons (x : BitVec 32) (xs : List (BitVec 32)) :
    encode (x :: xs) = bytesOf x ++ encode xs := List.flatMap_cons

theorem encode_length (xs : List (BitVec 32)) : (encode xs).length = 4 * xs.length := by
  induction xs with
  | nil => rfl
  | cons x xs ih =>
    rw [encode_cons, List.length_append, ih, List.length_cons]
    show 4 + 4 * xs.length = _
    omega

/-- The four digits of a number below `2 ^ 32`. -/
theorem digits_sum (n : Nat) (h : n < 2 ^ 32) :
    n % 2 ^ 8 + 2 ^ 8 * (n / 2 ^ 8 % 2 ^ 8) + 2 ^ 16 * (n / 2 ^ 16 % 2 ^ 8)
      + 2 ^ 24 * (n / 2 ^ 24 % 2 ^ 8) = n := by
  omega

theorem intOf_bytesOf (x : BitVec 32) :
    intOf (UInt8.ofNat x.toNat) (UInt8.ofNat (x.toNat / 2 ^ 8)) (UInt8.ofNat (x.toNat / 2 ^ 16))
      (UInt8.ofNat (x.toNat / 2 ^ 24)) = x := by
  unfold intOf
  rw [UInt8.toNat_ofNat', UInt8.toNat_ofNat', UInt8.toNat_ofNat', UInt8.toNat_ofNat',
    digits_sum x.toNat x.isLt, BitVec.ofNat_toNat]
  exact BitVec.setWidth_eq x

theorem decode_encode (xs : List (BitVec 32)) : decode (encode xs) = xs := by
  induction xs with
  | nil => rfl
  | cons x xs ih =>
    rw [encode_cons]
    show intOf _ _ _ _ :: decode (encode xs) = x :: xs
    rw [intOf_bytesOf, ih]

end SystemOS.Lib.LittleEndian
