/-
  SystemOS.Lib.WordStack — a descending stack of 32-bit words in byte memory.

  The stack pointer is the address of the last word pushed.  Nothing here knows what the words are.

  Key results:
    * `pushAll_pointer` — how far a sequence of pushes goes down.
    * `pushAll_of_out`  — it writes between the two pointers only.
    * `pushAll_word`    — and each word stands where it was pushed.
-/
import SystemOS.Lib.ByteMemory

namespace SystemOS.Lib.WordStack

open SystemOS.Lib.ByteMemory

/-- The memory and the stack pointer. -/
abbrev Stack := Mem × Nat

def push (s : Stack) (v : Nat) : Stack := (writeWord s.1 (sub32 s.2 4) v, sub32 s.2 4)

def pushAll (s : Stack) (w : List Nat) : Stack := w.foldl push s

variable {s : Stack} {w : List Nat} {v : Nat}

@[simp] theorem pushAll_nil : pushAll s [] = s := rfl

theorem pushAll_cons : pushAll s (v :: w) = pushAll (push s v) w := by
  unfold pushAll
  rw [List.foldl_cons]

theorem pushAll_append (vs : List Nat) : pushAll s (vs ++ w) = pushAll (pushAll s vs) w :=
  List.foldl_append

theorem push_pointer (h : 4 ≤ s.2) (hlt : s.2 < 2 ^ 32) : (push s v).2 = s.2 - 4 := by
  rw [push]
  exact sub32_eq h hlt

theorem pushAll_pointer (h : 4 * w.length ≤ s.2) (hlt : s.2 < 2 ^ 32) :
    (pushAll s w).2 = s.2 - 4 * w.length := by
  induction w generalizing s with
  | nil => rfl
  | cons v w ih =>
    rw [List.length_cons] at h ⊢
    have hp : (push s v).2 = s.2 - 4 := push_pointer (by omega) hlt
    rw [pushAll_cons, ih (by omega) (by omega), hp]
    omega

/-- Pushes write between the two stack pointers only. -/
theorem pushAll_of_out {x : Nat} (h : 4 * w.length ≤ s.2) (hlt : s.2 < 2 ^ 32)
    (hx : x < s.2 - 4 * w.length ∨ s.2 ≤ x) : (pushAll s w).1 x = s.1 x := by
  induction w generalizing s with
  | nil => rfl
  | cons v w ih =>
    rw [List.length_cons] at h hx
    have hp : (push s v).2 = s.2 - 4 := push_pointer (by omega) hlt
    rw [pushAll_cons, ih (by omega) (by omega) (by omega)]
    rw [push, sub32_eq (by omega) hlt]
    exact writeWord_of_out _ _ (by omega)

/-- The `i`-th word pushed stands `i + 1` words below the pointer that the pushes started at. -/
theorem pushAll_word (h : 4 * w.length ≤ s.2) (hlt : s.2 < 2 ^ 32) {i : Nat} (hi : i < w.length)
    (hw : w[i] < 2 ^ 32) : readWord (pushAll s w).1 (s.2 - 4 * (i + 1)) = w[i] := by
  induction w generalizing s i with
  | nil => exact absurd hi (Nat.not_lt_zero i)
  | cons v w ih =>
    rw [List.length_cons] at h hi
    have hp : (push s v).2 = s.2 - 4 := push_pointer (by omega) hlt
    rw [pushAll_cons]
    cases i with
    | zero =>
      rw [readWord_congr (m := (push s v).1) fun x hx hx' =>
        pushAll_of_out (by omega) (by omega) (.inr (by omega))]
      rw [push, sub32_eq (by omega) hlt, Nat.zero_add, Nat.mul_one, List.getElem_cons_zero]
      exact read_write_self _ _ hw
    | succ i =>
      have hword := ih (s := push s v) (by omega) (by omega) (i := i) (by omega) hw
      rw [List.getElem_cons_succ, ← hword, hp,
        show s.2 - 4 * (i + 1 + 1) = s.2 - 4 - 4 * (i + 1) by omega]

end SystemOS.Lib.WordStack
