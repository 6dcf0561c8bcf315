/-
  SystemOS.Lib.Decimal — integers as `%d` prints them.

  `digits n` are the bytes of the decimal digits of `n`, most significant first, and `decimal` puts
  a sign in front of those of a negative number.

  Key results:
    * `digits_value`  — reading the digits gives the number back.
    * `decimal_length` — how long a number gets.
    * `utf8_toString` — `decimal` is the text that Lean prints, in bytes.
-/
import Mathlib.Tactic.IntervalCases
import SystemOS.Lib.Lines
import SystemOS.Lib.Utf8

namespace SystemOS.Lib.Decimal

open SystemOS.Lib.Lines SystemOS.Lib.Utf8

/-- The decimal digits of a number. -/
def digits (n : Nat) : Bytes := (Nat.toDigits 10 n).map fun c => c.val.toUInt8

/-- What `printf("%d")` writes. -/
def decimal : Int → Bytes
  | .ofNat n => digits n
  | .negSucc n => 45 :: digits (n + 1)

/-- The number that a string of digits stands for. -/
def value (ds : Bytes) : Nat := ds.foldl (fun v c => 10 * v + (c.toNat - 48)) 0

theorem value_append (ds : Bytes) (c : UInt8) :
    value (ds ++ [c]) = 10 * value ds + (c.toNat - 48) := by
  unfold value
  rw [List.foldl_append]
  rfl

/-! ## §1. Digits. -/

theorem digitChar_byte {d : Nat} (hd : d < 10) :
    (Nat.digitChar d).val.toUInt8 = UInt8.ofNat (48 + d) := by
  interval_cases d <;> rfl

/-- The last digit, and those in front of it. -/
theorem digits_step {n : Nat} (h : 10 ≤ n) :
    digits n = digits (n / 10) ++ [UInt8.ofNat (48 + n % 10)] := by
  unfold digits
  rw [Nat.toDigits_of_base_le (by decide) h, List.map_append, List.map_singleton,
    digitChar_byte (Nat.mod_lt n (by decide))]

theorem digits_single {n : Nat} (h : n < 10) : digits n = [UInt8.ofNat (48 + n)] := by
  unfold digits
  rw [Nat.toDigits_of_lt_base h, List.map_singleton, digitChar_byte h]

/-- Induction over the digits of a number. -/
theorem digits_induction {P : Nat → Prop} (hsingle : ∀ n < 10, P n)
    (hstep : ∀ n, 10 ≤ n → P (n / 10) → P n) (n : Nat) : P n := by
  induction n using Nat.strongRecOn with
  | _ n ih =>
    rcases Nat.lt_or_ge n 10 with hlt | hge
    · exact hsingle n hlt
    · exact hstep n hge (ih (n / 10) (by omega))

theorem digit_toNat {d : Nat} (hd : d < 10) : (UInt8.ofNat (48 + d)).toNat = 48 + d := by
  rw [UInt8.toNat_ofNat']
  exact Nat.mod_eq_of_lt (by omega)

theorem digits_ne_nil (n : Nat) : digits n ≠ [] := by
  unfold digits
  simp

/-- Digits lie between `'0'` and `'9'`. -/
theorem digits_bounds (n : Nat) : ∀ c ∈ digits n, 48 ≤ c.toNat ∧ c.toNat ≤ 57 := by
  induction n using digits_induction with
  | hsingle n hn =>
    intro c hc
    rw [digits_single hn, List.mem_singleton] at hc
    rw [hc, digit_toNat hn]
    omega
  | hstep n hn ih =>
    intro c hc
    rw [digits_step hn, List.mem_append, List.mem_singleton] at hc
    rcases hc with hc | rfl
    · exact ih c hc
    · rw [digit_toNat (Nat.mod_lt n (by decide))]
      omega

/-- **Reading the digits gives the number back.** -/
theorem digits_value (n : Nat) : value (digits n) = n := by
  induction n using digits_induction with
  | hsingle n hn =>
    rw [digits_single hn]
    show 10 * 0 + ((UInt8.ofNat (48 + n)).toNat - 48) = n
    rw [digit_toNat hn]
    omega
  | hstep n hn ih =>
    rw [digits_step hn, value_append, ih, digit_toNat (Nat.mod_lt n (by decide))]
    omega

/-! ## §2. Lengths. -/

theorem digits_length {n k : Nat} (hk : 0 < k) (h : n < 10 ^ k) : (digits n).length ≤ k := by
  unfold digits
  rw [List.length_map]
  exact (Nat.length_toDigits_le_iff (by decide) hk).mpr h

/-- **How long a number gets**: one byte more than its digits. -/
theorem decimal_length {n : Int} {k : Nat} (hk : 0 < k) (h : n.natAbs < 10 ^ k) :
    (decimal n).length ≤ k + 1 := by
  cases n with
  | ofNat n => exact Nat.le_succ_of_le (digits_length hk h)
  | negSucc n => exact Nat.succ_le_succ (digits_length hk h)

/-! ## §3. The text that Lean prints. -/

theorem digit_utf8Size {c : Char} (h : c.isDigit = true) : c.utf8Size = 1 := by
  have hle : c.val ≤ 127 := by
    have h2 := (Bool.and_eq_true_iff.mp h).2
    rw [decide_eq_true_eq] at h2
    exact UInt32.le_trans h2 (by decide)
  exact Char.utf8Size_eq_one_iff.mpr hle

theorem utf8_repr (n : Nat) : n.repr.toUTF8.toList = digits n :=
  utf8_ofList fun _ hc =>
    digit_utf8Size (Nat.isDigit_of_mem_toDigits (by decide) (by decide) hc)

/-- **`decimal` is the text that Lean prints**, in bytes. -/
theorem utf8_toString (n : Int) : (toString n).toUTF8.toList = decimal n := by
  cases n with
  | ofNat n => exact utf8_repr n
  | negSucc n =>
    show ("-" ++ Nat.repr (n + 1)).toUTF8.toList = 45 :: digits (n + 1)
    rw [← utf8_repr, byteArray_toList, byteArray_toList]
    simp
    rfl

end SystemOS.Lib.Decimal
