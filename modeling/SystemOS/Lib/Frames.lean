/-
  SystemOS.Lib.Frames — a stream cut into frames of one length, and the changes of a sampled level.

  Elements arrive one at a time.  A frame is complete with its last element; what has arrived of the
  next one is the rest.

  Key results:
    * `frames_snoc_lt`, `frames_snoc_last` — one more element, inside a frame or as the last of one.
    * `getLast_destutter'`                 — the last change leaves the level of the last sample.
-/
import Mathlib.Data.List.Destutter

namespace SystemOS.Lib.Frames

/-! ## §1. Frames. -/

section Frames

variable {α : Type} {n : Nat} {bs : List α}

/-- The complete frames of a stream. -/
def frames (n : Nat) (bs : List α) : List (List α) :=
  (List.range (bs.length / n)).map fun k => (bs.drop (n * k)).take n

/-- What has arrived of the next frame. -/
def rest (n : Nat) (bs : List α) : List α := bs.drop (n * (bs.length / n))

theorem rest_length (n : Nat) (bs : List α) : (rest n bs).length = bs.length % n := by
  have h := Nat.div_add_mod bs.length n
  simp only [rest, List.length_drop]
  omega

/-- The frames that were complete stay what they were. -/
theorem frame_append {k : Nat} (hk : k < bs.length / n) (b : α) :
    ((bs ++ [b]).drop (n * k)).take n = (bs.drop (n * k)).take n := by
  have hend : n * k + n ≤ bs.length := by
    calc n * k + n = n * (k + 1) := rfl
      _ ≤ n * (bs.length / n) := Nat.mul_le_mul_left n hk
      _ ≤ bs.length := Nat.mul_div_le bs.length n
  rw [List.drop_append_of_le_length (by omega),
    List.take_append_of_le_length (by rw [List.length_drop]; omega)]

/-- **An element inside a frame.** -/
theorem frames_snoc_lt (b : α) (h : bs.length % n + 1 < n) :
    frames n (bs ++ [b]) = frames n bs ∧ rest n (bs ++ [b]) = rest n bs ++ [b] := by
  have hcount : (bs ++ [b]).length / n = bs.length / n := by
    rw [List.length_append, List.length_singleton, Nat.succ_div_of_not_dvd]
    intro hdvd
    have hmod := Nat.mod_eq_zero_of_dvd hdvd
    rw [Nat.add_mod, Nat.mod_eq_of_lt (show 1 < n by omega), Nat.mod_eq_of_lt h] at hmod
    omega
  constructor
  · simp only [frames, hcount]
    exact List.map_congr_left fun k hk => frame_append (List.mem_range.mp hk) b
  · simp only [rest, hcount]
    exact List.drop_append_of_le_length (Nat.mul_div_le bs.length n)

/-- **The last element of a frame.** -/
theorem frames_snoc_last (b : α) (h : bs.length % n + 1 = n) :
    frames n (bs ++ [b]) = frames n bs ++ [rest n bs ++ [b]] ∧ rest n (bs ++ [b]) = [] := by
  have hsplit := Nat.div_add_mod bs.length n
  have hlen : (bs ++ [b]).length = n * (bs.length / n + 1) := by
    rw [List.length_append, List.length_singleton, Nat.mul_succ]
    omega
  have hcount : (bs ++ [b]).length / n = bs.length / n + 1 := by
    rw [hlen, Nat.mul_div_cancel_left _ (by omega)]
  constructor
  · simp only [frames, hcount, List.range_succ, List.map_append, List.map_singleton]
    have hlast : (bs ++ [b]).drop (n * (bs.length / n)) = rest n bs ++ [b] :=
      List.drop_append_of_le_length (Nat.mul_div_le bs.length n)
    rw [hlast, List.take_of_length_le (by rw [List.length_append, rest_length]; exact h.le)]
    congr 1
    exact List.map_congr_left fun k hk => frame_append (List.mem_range.mp hk) b
  · rw [rest, hcount, ← hlen, List.drop_length]

end Frames

/-! ## §2. Changes of a sampled level. -/

section Levels

variable {α : Type} [DecidableEq α]

/-- The first sample, and then every one that differs from the one before, end in the last one. -/
theorem getLast_destutter' (l : List α) (a : α) :
    (l.destutter' (· ≠ ·) a).getLast? = (a :: l).getLast? := by
  induction l generalizing a with
  | nil => rfl
  | cons b l ih =>
      rw [List.getLast?_cons_cons]
      by_cases hab : a = b
      · rw [List.destutter'_cons_neg _ (not_not.mpr hab), ih, hab]
      · rw [List.destutter'_cons_pos _ hab]
        cases hl : l.destutter' (· ≠ ·) b with
        | nil => exact absurd hl (List.destutter'_ne_nil _ _)
        | cons c l' => rw [List.getLast?_cons_cons, ← hl, ih]

end Levels

end SystemOS.Lib.Frames
