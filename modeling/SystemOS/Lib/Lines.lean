/-
  SystemOS.Lib.Lines — reading a file line by line with `fgets`.

  `fgets n bs` takes at most `n` bytes, up to and including the first newline (a buffer of `n + 1`
  bytes).  `lines n bs` is what the loop `while (fgets(line, n + 1, file))` sees from first to last.

  Key results:
    * `lines_cons`        — the loop equation; the fuel of the recursion never runs out.
    * `getElem_lines_append` — complete lines do not depend on what follows them.
-/
import Mathlib.Data.List.Basic

namespace SystemOS.Lib.Lines

abbrev Bytes := List UInt8

/-- The string that a buffer holds: its bytes up to the first NUL. -/
def cstr (line : Bytes) : Bytes := line.takeWhile (· ≠ 0)

/-- One call of `fgets`: the line and the rest of the file. -/
def fgets : Nat → Bytes → Bytes × Bytes
  | 0, bs => ([], bs)
  | _ + 1, [] => ([], [])
  | n + 1, b :: bs =>
    if b = 10 then ([b], bs)
    else
      let (line, rest) := fgets n bs
      (b :: line, rest)

theorem fgets_rest_length {n : Nat} {bs : Bytes} (h : bs ≠ []) :
    (fgets (n + 1) bs).2.length < bs.length := by
  have hle : ∀ (k : Nat) (cs : Bytes), (fgets k cs).2.length ≤ cs.length := by
    intro k
    induction k with
    | zero => exact fun cs => Nat.le_refl _
    | succ k ih =>
      intro cs
      cases cs with
      | nil => exact Nat.le_refl _
      | cons c cs =>
        unfold fgets
        split
        · exact Nat.le_succ _
        · exact Nat.le_succ_of_le (ih cs)
  cases bs with
  | nil => exact absurd rfl h
  | cons b bs =>
    unfold fgets
    split
    · exact Nat.lt_succ_self _
    · exact Nat.lt_succ_of_le (hle n bs)

/-- The successive lines, at most `fuel` of them. -/
def linesFuel (n : Nat) : Nat → Bytes → List Bytes
  | 0, _ => []
  | fuel + 1, bs => if bs = [] then [] else (fgets n bs).1 :: linesFuel n fuel (fgets n bs).2

/-- The lines of a file, for a buffer of `n + 1` bytes. -/
def lines (n : Nat) (bs : Bytes) : List Bytes := linesFuel n bs.length bs

/-- Fuel beyond the length of the file makes no difference. -/
theorem linesFuel_eq {n fuel fuel' : Nat} {bs : Bytes} (h : bs.length ≤ fuel)
    (h' : bs.length ≤ fuel') : linesFuel (n + 1) fuel bs = linesFuel (n + 1) fuel' bs := by
  induction fuel generalizing fuel' bs with
  | zero =>
    rw [List.length_eq_zero_iff.mp (Nat.le_zero.mp h)]
    cases fuel' <;> rfl
  | succ fuel ih =>
    cases bs with
    | nil => cases fuel' <;> rfl
    | cons b bs =>
      have hlt := fgets_rest_length (n := n) (List.cons_ne_nil b bs)
      rw [List.length_cons] at h h' hlt
      cases fuel' with
      | zero => omega
      | succ fuel' =>
        unfold linesFuel
        rw [if_neg (List.cons_ne_nil b bs), if_neg (List.cons_ne_nil b bs)]
        exact congrArg _ (ih (by omega) (by omega))

theorem linesFuel_enough (n : Nat) {fuel : Nat} {bs : Bytes} (h : bs.length ≤ fuel) :
    linesFuel (n + 1) fuel bs = lines (n + 1) bs :=
  linesFuel_eq h (Nat.le_refl bs.length)

@[simp] theorem lines_nil (n : Nat) : lines n [] = [] := rfl

/-- **The loop equation.** -/
theorem lines_cons {n : Nat} {bs : Bytes} (h : bs ≠ []) :
    lines (n + 1) bs = (fgets (n + 1) bs).1 :: lines (n + 1) (fgets (n + 1) bs).2 := by
  have hlt := fgets_rest_length (n := n) h
  have hstep : linesFuel (n + 1) ((bs.length - 1) + 1) bs
      = (fgets (n + 1) bs).1 :: linesFuel (n + 1) (bs.length - 1) (fgets (n + 1) bs).2 := by
    conv_lhs => unfold linesFuel
    rw [if_neg h]
  rw [linesFuel_enough n (by omega), linesFuel_enough n (by omega)] at hstep
  exact hstep

/-- The line is complete: the buffer is full or the line ends in a newline. -/
def complete (n : Nat) (line : Bytes) : Bool :=
  decide (line.length = n) || decide (line.getLast? = some 10)

/-- So is what follows a byte of it, unless that byte is the newline. -/
theorem complete_tail {n : Nat} {b : UInt8} {line : Bytes} (hb : b ≠ 10)
    (h : complete (n + 1) (b :: line) = true) : complete n line = true := by
  unfold complete at h ⊢
  cases line with
  | nil =>
    have h0 : n = 0 := by simpa [hb] using h
    simp [h0]
  | cons c cs => simpa using h

/-- A complete line does not depend on what follows it. -/
theorem fgets_append : ∀ {n : Nat} {bs : Bytes} (t : Bytes), complete n (fgets n bs).1 = true →
    fgets n (bs ++ t) = ((fgets n bs).1, (fgets n bs).2 ++ t)
  | 0, _, _, _ => rfl
  | n + 1, [], t, h => by simp [fgets, complete] at h
  | n + 1, b :: bs, t, h => by
      unfold fgets at h ⊢
      rw [List.cons_append]
      by_cases hb : b = 10
      · simp only [if_pos hb]
      · simp only [if_neg hb] at h ⊢
        rw [fgets_append t (complete_tail hb h)]

/-- The first `k` lines of `bs` are complete. -/
def firstComplete (n : Nat) : Nat → Bytes → Bool
  | 0, _ => true
  | k + 1, bs => complete n (fgets n bs).1 && firstComplete n k (fgets n bs).2

theorem complete_ne_nil {n : Nat} {bs : Bytes} (h : complete (n + 1) (fgets (n + 1) bs).1 = true) :
    bs ≠ [] := by
  intro heq
  subst heq
  simp [fgets, complete] at h

/-- **Complete lines do not depend on what follows them.** -/
theorem getElem_lines_append {n : Nat} : ∀ {k i : Nat} {bs : Bytes} (t : Bytes),
    firstComplete (n + 1) k bs = true → i < k →
      (lines (n + 1) (bs ++ t))[i]? = (lines (n + 1) bs)[i]?
  | 0, _, _, _, _, hi => absurd hi (Nat.not_lt_zero _)
  | k + 1, i, bs, t, h, hi => by
      unfold firstComplete at h
      rw [Bool.and_eq_true] at h
      have hne := complete_ne_nil h.1
      have hne' : bs ++ t ≠ [] := fun hnil => hne (List.append_eq_nil_iff.mp hnil).1
      rw [lines_cons hne, lines_cons hne', fgets_append t h.1]
      cases i with
      | zero => rfl
      | succ i =>
        simp only [List.getElem?_cons_succ]
        exact getElem_lines_append t h.2 (by omega)

end SystemOS.Lib.Lines
