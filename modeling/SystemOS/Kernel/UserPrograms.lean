/-
  SystemOS.Kernel.UserPrograms — what the programs `collatz` and `long_running_program` print.

  A program is translated to the points between two of its statements, with the local variables that
  are alive there.  An `int` wraps, as in the instructions that it is compiled to.

  Main results:
    * `collatz_printed`  — `collatz` gets to its `exit` and has printed fourteen sequences.
    * `long_printed_iff` — `long_running_program` of any length, and the number it prints.
-/
import Mathlib.Algebra.BigOperators.Intervals
import SystemOS.Kernel.Console
import SystemOS.Kernel.PrintfInt

namespace SystemOS.Kernel.UserPrograms

open SystemOS.Kernel.Console SystemOS.Kernel.PrintfInt

/-! ## §1. The programs. -/

/-- Where a task is. -/
inductive Point
  | collatz (i : Int32)
  /-- `while (n != 1)`. -/
  | sequence (i n : Int32)
  | long_running_program (n i j : Int32) (result : UInt32)
  | exit
deriving DecidableEq, Repr

/-- `if (n % 2 == 0) n = n / 2; else n = 3 * n + 1;` -/
def collatzNext (n : Int32) : Int32 := if n % 2 = 0 then n / 2 else 3 * n + 1

/-- One statement: the next point, and what is printed. -/
def Point.next : Point → Point × Text
  | .collatz i =>
    if i < 15 then (.sequence i i, built i ++ text "- Sequence: ")
    else (.exit, text "******* Collatz program is finished *******\n")
  | .sequence i n =>
    if n = 1 then (.collatz (i + 1), text "\n")
    else (.sequence i (collatzNext n), built (collatzNext n) ++ text ", ")
  | .long_running_program n i j result =>
    if i < n then
      if j < n then (.long_running_program n i (j + 1) (result + (i * j).toUInt32), [])
      else (.long_running_program n (i + 1) 0 result, [])
    else (.exit, text "Result: " ++ built result.toInt32 ++ text "\n"
      ++ text "******* Long running program is finished *******\n\n")
  | .exit => (.exit, [])

/-! ## §2. Running a program. -/

/-- One statement, with what has been printed. -/
def run (x : Point × Text) : Point × Text := (x.1.next.1, x.2 ++ x.1.next.2)

/-- A program that runs from `p` to `q` prints `t`. -/
def Prints (p : Point) (t : Text) (q : Point) : Prop :=
  ∃ m, ∀ printed, run^[m] (p, printed) = (q, printed ++ t)

theorem Prints.refl (p : Point) : Prints p [] p := ⟨0, fun printed => by simp⟩

theorem Prints.trans {p q r : Point} {t u : Text} (h : Prints p t q) (h' : Prints q u r) :
    Prints p (t ++ u) r := by
  obtain ⟨m, hm⟩ := h
  obtain ⟨m', hm'⟩ := h'
  refine ⟨m' + m, fun printed => ?_⟩
  rw [Function.iterate_add_apply, hm, hm', List.append_assoc]

theorem prints_next {p q : Point} {t : Text} (h : p.next = (q, t)) : Prints p t q := by
  refine ⟨1, fun printed => ?_⟩
  show (p.next.1, printed ++ p.next.2) = _
  rw [h]

/-- A program stays at its `exit`, so it prints one text until then. -/
theorem printed_unique {p : Point} {t u : Text} (h : Prints p t .exit) (hu : Prints p u .exit) :
    u = t := by
  obtain ⟨m, hm⟩ := h
  obtain ⟨m', hm'⟩ := hu
  have hfix : ∀ v : Text, run (.exit, v) = (.exit, v) := fun v => by
    show (Point.exit, v ++ []) = (Point.exit, v)
    rw [List.append_nil]
  have hleft : run^[m + m'] (p, []) = (.exit, u) := by
    rw [Function.iterate_add_apply, hm', Function.iterate_fixed (hfix _), List.nil_append]
  have hright : run^[m' + m] (p, []) = (.exit, t) := by
    rw [Function.iterate_add_apply, hm, Function.iterate_fixed (hfix _), List.nil_append]
  rw [Nat.add_comm, hright] at hleft
  exact (Prod.ext_iff.mp hleft).2.symm

/-! ## §3. `collatz`. -/

/-- The numbers behind `n` in its sequence, down to 1. -/
inductive Orbit : Int32 → List Int32 → Prop
  | one : Orbit 1 []
  | next {n : Int32} {l : List Int32} : n ≠ 1 → Orbit (collatzNext n) l →
      Orbit n (collatzNext n :: l)

/-- The sequence of `n`, if it gets down to 1 in time. -/
def orbit : Nat → Int32 → Option (List Int32)
  | 0, _ => none
  | fuel + 1, n =>
    if n = 1 then some [] else (orbit fuel (collatzNext n)).map fun l => collatzNext n :: l

theorem orbit_sound {fuel : Nat} {n : Int32} {l : List Int32} (h : orbit fuel n = some l) :
    Orbit n l := by
  induction fuel generalizing n l with
  | zero => cases h
  | succ fuel ih =>
    unfold orbit at h
    split at h
    next hone =>
      obtain rfl := Option.some.inj h
      rw [hone]
      exact .one
    next hone =>
      obtain ⟨l', hl', rfl⟩ := Option.map_eq_some_iff.mp h
      exact .next hone (ih hl')

/-- One line of `collatz`. -/
def line (i : Int32) (l : List Int32) : Text :=
  built i ++ text "- Sequence: " ++ l.flatMap (fun n => built n ++ text ", ") ++ text "\n"

theorem sequence_printed {n : Int32} {l : List Int32} (h : Orbit n l) (i : Int32) :
    Prints (.sequence i n) (l.flatMap (fun n => built n ++ text ", ") ++ text "\n")
      (.collatz (i + 1)) := by
  induction h with
  | one => exact prints_next rfl
  | @next n l hne _ ih =>
    rw [List.flatMap_cons, List.append_assoc]
    refine (prints_next ?_).trans ih
    show (if n = 1 then _ else _) = _
    rw [if_neg hne]

theorem line_printed {i : Int32} {l : List Int32} (hi : i < 15) (h : Orbit i l) :
    Prints (.collatz i) (line i l) (.collatz (i + 1)) := by
  unfold line
  rw [List.append_assoc]
  refine (prints_next ?_).trans (sequence_printed h i)
  show (if i < 15 then _ else _) = _
  rw [if_pos hi]

/-- The numbers that `collatz` starts from, with their sequences. -/
def sequences : List (Int32 × List Int32) :=
  (List.range' 1 14).filterMap fun i => (orbit 20 (.ofNat i)).map fun l => (.ofNat i, l)

/-- What `collatz` prints. -/
def collatzText : Text :=
  sequences.flatMap (fun (i, l) => line i l) ++ text "******* Collatz program is finished *******\n"

theorem sequences_printed : ∀ (is : List Nat) (i : Nat),
    (∀ j ∈ is, Int32.ofNat j < 15 ∧ ∃ l, orbit 20 (.ofNat j) = some l) →
    is = List.range' i is.length →
    Prints (.collatz (.ofNat i))
      ((is.filterMap fun i => (orbit 20 (.ofNat i)).map fun l => (Int32.ofNat i, l)).flatMap
        fun (i, l) => line i l)
      (.collatz (.ofNat (i + is.length)))
  | [], i, _, _ => Prints.refl _
  | j :: is, i, h, hrange => by
      rw [List.length_cons, List.range'_succ] at hrange
      obtain ⟨rfl, hrest⟩ := List.cons.inj hrange
      obtain ⟨hlt, l, hl⟩ := h j List.mem_cons_self
      have htail := sequences_printed is (j + 1) (fun j hj => h j (List.mem_cons_of_mem _ hj)) hrest
      rw [Int32.ofNat_add j 1] at htail
      rw [List.filterMap_cons, hl, List.length_cons, ← Nat.add_assoc, Nat.add_right_comm]
      exact (line_printed hlt (orbit_sound hl)).trans htail

/-- **`collatz` prints the sequences of 1 to 14** and calls `exit`. -/
theorem collatz_printed : Prints (.collatz 1) collatzText .exit := by
  have hlines : Prints (.collatz 1) (sequences.flatMap fun (i, l) => line i l) (.collatz 15) := by
    refine sequences_printed (List.range' 1 14) 1 ?_ rfl
    intro j hj
    have hsome : ∀ j ∈ List.range' 1 14, Int32.ofNat j < 15 ∧ (orbit 20 (.ofNat j)).isSome := by
      decide +kernel
    obtain ⟨hlt, hl⟩ := hsome j hj
    exact ⟨hlt, Option.isSome_iff_exists.mp hl⟩
  exact hlines.trans (prints_next rfl)

/-! ## §4. `long_running_program`. -/

section Long

variable {n : Int32} {i j r : Nat}

theorem ofNat_lt_iff (h : j ≤ n.toInt.toNat) : Int32.ofNat j < n ↔ j < n.toInt.toNat := by
  have hle : n.toInt < 2 ^ 31 := n.toInt_lt
  rw [Int32.lt_iff_toInt_lt, Int32.toInt_ofNat_of_lt (by omega)]
  omega

/-- The inner loop. -/
theorem inner_printed (hi : i < n.toInt.toNat) {k : Nat} (hj : j + k = n.toInt.toNat) :
    Prints (.long_running_program n (.ofNat i) (.ofNat j) (.ofNat r)) []
      (.long_running_program n (.ofNat i) (.ofNat n.toInt.toNat)
        (.ofNat (r + i * ∑ x ∈ Finset.Ico j n.toInt.toNat, x))) := by
  induction k generalizing j r with
  | zero =>
    obtain rfl : j = n.toInt.toNat := hj
    simpa using Prints.refl _
  | succ k ih =>
    have hjn : j < n.toInt.toNat := by omega
    have hstep : (Point.long_running_program n (.ofNat i) (.ofNat j) (.ofNat r)).next
        = (.long_running_program n (.ofNat i) (.ofNat (j + 1)) (.ofNat (r + i * j)), []) := by
      show (if _ then if _ then _ else _ else _) = _
      rw [if_pos ((ofNat_lt_iff hi.le).mpr hi), if_pos ((ofNat_lt_iff hjn.le).mpr hjn),
        ← Int32.ofNat_mul, Int32.toUInt32_ofNat', Int32.ofNat_add, UInt32.ofNat_add]
      rfl
    have hrest := ih (r := r + i * j) (j := j + 1) (by omega)
    rw [Finset.sum_eq_sum_Ico_succ_bot hjn, Nat.mul_add, ← Nat.add_assoc]
    exact (prints_next hstep).trans hrest

/-- The outer loop. -/
theorem outer_printed {k : Nat} (hi : i + k = n.toInt.toNat) :
    Prints (.long_running_program n (.ofNat i) 0 (.ofNat r)) []
      (.long_running_program n (.ofNat n.toInt.toNat) 0
        (.ofNat (r + (∑ x ∈ Finset.Ico i n.toInt.toNat, x)
          * ∑ x ∈ Finset.Ico 0 n.toInt.toNat, x))) := by
  induction k generalizing i r with
  | zero =>
    obtain rfl : i = n.toInt.toNat := hi
    simpa using Prints.refl _
  | succ k ih =>
    have hin : i < n.toInt.toNat := by omega
    have hinner := inner_printed (r := r) (j := 0) hin (Nat.zero_add _)
    have hstep : ∀ r, (Point.long_running_program n (.ofNat i) (.ofNat n.toInt.toNat) r).next
        = (.long_running_program n (.ofNat (i + 1)) 0 r, []) := by
      intro r
      show (if _ then if _ then _ else _ else _) = _
      rw [if_pos ((ofNat_lt_iff hin.le).mpr hin),
        if_neg fun h => lt_irrefl _ ((ofNat_lt_iff le_rfl).mp h), Int32.ofNat_add]
      rfl
    have hrest := ih (r := r + i * ∑ x ∈ Finset.Ico 0 n.toInt.toNat, x) (i := i + 1) (by omega)
    rw [Finset.sum_eq_sum_Ico_succ_bot hin, Nat.add_mul, ← Nat.add_assoc]
    exact hinner.trans ((prints_next (hstep _)).trans hrest)

end Long

/-- What `long_running_program` prints in the end. -/
def longText (n : Int32) : Text :=
  text "Result: " ++ built (Int32.ofNat ((n.toInt.toNat * (n.toInt.toNat - 1) / 2) ^ 2))
    ++ text "\n" ++ text "******* Long running program is finished *******\n\n"

/-- `long_running_program` gets to its `exit`. -/
theorem long_printed (n : Int32) : Prints (.long_running_program n 0 0 0) (longText n) .exit := by
  have hloops := outer_printed (r := 0) (i := 0) (n := n) (Nat.zero_add _)
  have hsum : ∑ x ∈ Finset.Ico 0 n.toInt.toNat, x = n.toInt.toNat * (n.toInt.toNat - 1) / 2 := by
    rw [← Finset.range_eq_Ico, Finset.sum_range_id]
  rw [hsum, Nat.zero_add, ← Nat.pow_two] at hloops
  refine hloops.trans (prints_next ?_)
  show (if _ then _ else _) = _
  rw [if_neg fun h => lt_irrefl _ ((ofNat_lt_iff le_rfl).mp h)]
  rfl

/-- **`long_running_program` prints the square of the sum of the numbers below `n`**, as a 32-bit
    number, for every `n`. -/
theorem long_printed_iff (n : Int32) (t : Text) :
    Prints (.long_running_program n 0 0 0) t .exit ↔ t = longText n := by
  constructor
  · exact printed_unique (long_printed n)
  · rintro rfl
    exact long_printed n

end SystemOS.Kernel.UserPrograms
