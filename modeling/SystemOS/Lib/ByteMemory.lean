/-
  SystemOS.Lib.ByteMemory — byte-addressed memory with little-endian 32-bit words.

  The memory is a total function from addresses to bytes; a word occupies four consecutive bytes.
  `read_write_self` and `read_write_apart` are the two facts every record layout over such a memory
  is verified with.  Unsigned 32-bit arithmetic is `Nat` arithmetic reduced modulo `2 ^ 32`.
-/
import Mathlib.Data.Nat.Basic
import Mathlib.Tactic.Ring

namespace SystemOS.Lib.ByteMemory

/-- Memory: one byte at every address. -/
abbrev Mem := Nat → UInt8

/-! ## §1. Unsigned 32-bit arithmetic. -/

/-- Unsigned 32-bit addition. -/
def add32 (a b : Nat) : Nat := (a + b) % 2 ^ 32

/-- Unsigned 32-bit subtraction. -/
def sub32 (a b : Nat) : Nat := (a + (2 ^ 32 - b % 2 ^ 32)) % 2 ^ 32

theorem add32_eq {a b : Nat} (h : a + b < 2 ^ 32) : add32 a b = a + b := Nat.mod_eq_of_lt h

theorem sub32_eq {a b : Nat} (hb : b ≤ a) (ha : a < 2 ^ 32) : sub32 a b = a - b := by
  unfold sub32
  rw [Nat.mod_eq_of_lt (lt_of_le_of_lt hb ha),
      show a + (2 ^ 32 - b) = (a - b) + 2 ^ 32 by omega, Nat.add_mod_right,
      Nat.mod_eq_of_lt (by omega)]

/-! ## §2. Bytes and words. -/

/-- Write one byte. -/
def writeByte (m : Mem) (a : Nat) (v : UInt8) : Mem := fun x => if x = a then v else m x

/-- Read the little-endian word at `a`. -/
def readWord (m : Mem) (a : Nat) : Nat :=
  (m a).toNat + 256 * (m (a + 1)).toNat + 65536 * (m (a + 2)).toNat + 16777216 * (m (a + 3)).toNat

/-- Write the little-endian word `w` at `a`. -/
def writeWord (m : Mem) (a w : Nat) : Mem := fun x =>
  if a ≤ x ∧ x < a + 4 then UInt8.ofNat (w / 256 ^ (x - a)) else m x

theorem writeByte_self (m : Mem) (a : Nat) (v : UInt8) : writeByte m a v a = v := by
  simp [writeByte]

theorem writeByte_of_ne (m : Mem) {a x : Nat} (v : UInt8) (h : x ≠ a) :
    writeByte m a v x = m x := by
  simp [writeByte, h]

/-- A word write changes the four bytes of the word only. -/
theorem writeWord_of_out (m : Mem) {a x : Nat} (w : Nat) (h : x < a ∨ a + 4 ≤ x) :
    writeWord m a w x = m x := by
  unfold writeWord
  rw [if_neg (by omega)]

/-- Byte `i` of a word write. -/
theorem writeWord_at (m : Mem) (a w : Nat) {i : Nat} (hi : i < 4) :
    (writeWord m a w (a + i)).toNat = w / 256 ^ i % 256 := by
  unfold writeWord
  rw [if_pos (by omega), Nat.add_sub_cancel_left]
  simp

/-- A word reads back as it was written. -/
theorem read_write_self (m : Mem) (a : Nat) {w : Nat} (hw : w < 2 ^ 32) :
    readWord (writeWord m a w) a = w := by
  have h0 := writeWord_at m a w (i := 0) (by omega)
  have h1 := writeWord_at m a w (i := 1) (by omega)
  have h2 := writeWord_at m a w (i := 2) (by omega)
  have h3 := writeWord_at m a w (i := 3) (by omega)
  rw [Nat.add_zero] at h0
  unfold readWord
  rw [h0, h1, h2, h3]
  omega

/-- A read depends on the four bytes of the word only. -/
theorem readWord_congr {m m' : Mem} {a : Nat} (h : ∀ x, a ≤ x → x < a + 4 → m' x = m x) :
    readWord m' a = readWord m a := by
  unfold readWord
  rw [h a (by omega) (by omega), h (a + 1) (by omega) (by omega), h (a + 2) (by omega) (by omega),
      h (a + 3) (by omega) (by omega)]

/-- A word write leaves the words apart from it alone. -/
theorem read_write_apart (m : Mem) {a b : Nat} (w : Nat) (h : a + 4 ≤ b ∨ b + 4 ≤ a) :
    readWord (writeWord m a w) b = readWord m b :=
  readWord_congr fun _ hx hx' => writeWord_of_out m w (by omega)

/-- A byte write outside a word leaves it alone. -/
theorem read_writeByte_apart (m : Mem) {a b : Nat} (v : UInt8) (h : a < b ∨ b + 4 ≤ a) :
    readWord (writeByte m a v) b = readWord m b :=
  readWord_congr fun _ hx hx' => writeByte_of_ne m v (by omega)

/-! ## §3. Runs of bytes. -/

/-- Write the bytes `bs` from `a` on. -/
def writeBytes (m : Mem) : Nat → List UInt8 → Mem
  | _, [] => m
  | a, b :: bs => writeBytes (writeByte m a b) (a + 1) bs

/-- `memset(a, v, n)`. -/
def fill (m : Mem) (a n : Nat) (v : UInt8) : Mem := fun x => if a ≤ x ∧ x < a + n then v else m x

theorem writeBytes_of_out {a x : Nat} {bs : List UInt8} (m : Mem)
    (h : x < a ∨ a + bs.length ≤ x) : writeBytes m a bs x = m x := by
  induction bs generalizing m a with
  | nil => rfl
  | cons b bs ih =>
    rw [List.length_cons] at h
    unfold writeBytes
    rw [ih _ (by omega), writeByte_of_ne m b (by omega)]

theorem writeBytes_at {a i : Nat} {bs : List UInt8} (m : Mem) (h : i < bs.length) :
    writeBytes m a bs (a + i) = bs[i] := by
  induction bs generalizing m a i with
  | nil => exact absurd h (Nat.not_lt_zero i)
  | cons b bs ih =>
    unfold writeBytes
    cases i with
    | zero =>
      rw [writeBytes_of_out _ (by omega)]
      exact writeByte_self m a b
    | succ i =>
      rw [List.length_cons] at h
      rw [show a + (i + 1) = a + 1 + i by omega, ih _ (by omega), List.getElem_cons_succ]

/-- A byte of the result depends on the byte that was there only. -/
theorem writeBytes_congr {m m' : Mem} {a x : Nat} (bs : List UInt8) (h : m' x = m x) :
    writeBytes m' a bs x = writeBytes m a bs x := by
  induction bs generalizing m m' a with
  | nil => exact h
  | cons b bs ih =>
    unfold writeBytes
    apply ih
    by_cases hx : x = a
    · subst hx
      rw [writeByte_self, writeByte_self]
    · rw [writeByte_of_ne m' b hx, writeByte_of_ne m b hx]
      exact h

theorem fill_of_out (m : Mem) {a n x : Nat} (v : UInt8) (h : x < a ∨ a + n ≤ x) :
    fill m a n v x = m x := by
  unfold fill
  rw [if_neg (by omega)]

theorem fill_of_in (m : Mem) {a n x : Nat} (v : UInt8) (h : a ≤ x) (h' : x < a + n) :
    fill m a n v x = v := by
  unfold fill
  rw [if_pos ⟨h, h'⟩]

end SystemOS.Lib.ByteMemory
