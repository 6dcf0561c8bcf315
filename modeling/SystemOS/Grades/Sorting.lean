/-
  SystemOS.Grades.Sorting — what `sortStudentGrades` prints.

  The loops compare the first tokens of two lines and exchange the lines if the first token comes
  later, so the array is sorted by exchanges.

  Main results:
    * `strcmp_total`      — `strcmp` orders all strings.
    * `sortLoop_eq`       — the loops are the sort.
    * `sortAll_prints`    — the lines of the file are printed in the order of their first tokens.
-/
import SystemOS.Grades.Readers
import SystemOS.Lib.ExchangeSort

namespace SystemOS.Grades.Sorting

open SystemOS.Lib.Lines SystemOS.Lib.Strings SystemOS.Lib.Strtok SystemOS.Lib.ExchangeSort
open SystemOS.Grades.Shell SystemOS.Grades.Tokens SystemOS.Grades.Readers

/-! ## §1. The order. -/

theorem strcmp_asymm (a b : Bytes) (h : strcmpPos a b = true) : strcmpPos b a = false := by
  induction a generalizing b with
  | nil => cases h
  | cons x a ih =>
    cases b with
    | nil => rfl
    | cons y b =>
      rw [strcmpPos] at h ⊢
      by_cases hxy : x = y
      · rw [if_pos hxy] at h
        rw [if_pos hxy.symm]
        exact ih b h
      · rw [if_neg hxy] at h
        rw [if_neg (Ne.symm hxy)]
        have hlt : y < x := of_decide_eq_true h
        exact decide_eq_false (UInt8.lt_asymm hlt)

theorem strcmp_trans (a b c : Bytes) (hab : strcmpPos a b = false) (hbc : strcmpPos b c = false) :
    strcmpPos a c = false := by
  induction a generalizing b c with
  | nil => cases c <;> rfl
  | cons x a ih =>
    cases b with
    | nil => cases hab
    | cons y b =>
      cases c with
      | nil => cases hbc
      | cons z c =>
        rw [strcmpPos] at hab hbc ⊢
        by_cases hxy : x = y
        · subst hxy
          rw [if_pos rfl] at hab
          by_cases hxz : x = z
          · rw [if_pos hxz] at hbc ⊢
            exact ih b c hab hbc
          · rw [if_neg hxz] at hbc ⊢
            exact hbc
        · rw [if_neg hxy] at hab
          have hle : x ≤ y := UInt8.not_lt.mp (of_decide_eq_false hab)
          by_cases hyz : y = z
          · subst hyz
            rw [if_neg hxy]
            exact hab
          · rw [if_neg hyz] at hbc
            have hle' : y ≤ z := UInt8.not_lt.mp (of_decide_eq_false hbc)
            have hxz : x ≠ z := by
              rintro rfl
              exact hxy (UInt8.le_antisymm hle hle')
            rw [if_neg hxz]
            exact decide_eq_false (UInt8.not_lt.mpr (UInt8.le_trans hle hle'))

/-- The first token of a line. -/
def firstToken (line : Bytes) : Bytes := ((strtok 32 line).1).getD []

/-- The first token of the first line comes later. -/
def later (line1 line2 : Bytes) : Bool := strcmpPos (firstToken line1) (firstToken line2)

/-- **`strcmp` orders all lines** by their first tokens. -/
theorem later_total : Total later where
  asymm _ _ h := strcmp_asymm _ _ h
  trans _ _ _ hab hbc := strcmp_trans _ _ _ hab hbc

/-! ## §2. The loops. -/

/-- One turn of the inner loop is an exchange. -/
theorem compareSwap_eq {lines : List Bytes} (hnamed : ∀ line ∈ lines, Named line) {i j : Nat}
    (hi : i < lines.length) (hj : j < lines.length) :
    (compareSwap lines i j).2 = some (exchange later lines i j) := by
  obtain ⟨a, ha⟩ := Option.ne_none_iff_exists'.mp
    ((named_iff _).mp (hnamed _ (List.getElem_mem hi)))
  obtain ⟨b, hb⟩ := Option.ne_none_iff_exists'.mp
    ((named_iff _).mp (hnamed _ (List.getElem_mem hj)))
  have hlater : later lines[i] lines[j] = strcmpPos a b := by
    unfold later firstToken
    rw [ha, hb]
    rfl
  unfold compareSwap
  rw [List.getD_eq_getElem _ _ hi, List.getD_eq_getElem _ _ hj,
    exchange_eq later (List.getElem?_eq_getElem hi) (List.getElem?_eq_getElem hj), hlater]
  simp only [ha, hb]

/-- **The loops are the sort by exchanges.** -/
theorem sortLoop_eq {lines : List Bytes} (hnamed : ∀ line ∈ lines, Named line)
    (pairs : List (Nat × Nat)) (hpairs : ∀ p ∈ pairs, p.1 < lines.length ∧ p.2 < lines.length) :
    (sortLoop pairs lines).2 = some (exchangeAll later pairs lines) := by
  induction pairs generalizing lines with
  | nil => rfl
  | cons p pairs ih =>
    obtain ⟨⟨hi, hj⟩, hrest⟩ := List.forall_mem_cons.mp hpairs
    have hperm := exchange_perm later lines p.1 p.2
    have hstep := compareSwap_eq hnamed hi hj
    have hnext := @ih (exchange later lines p.1 p.2)
      (fun line hline => hnamed line (hperm.mem_iff.mp hline))
      fun q hq => by rw [hperm.length_eq]; exact hrest q hq
    rcases hcompare : compareSwap lines p.1 p.2 with ⟨use, lines'⟩
    rw [hcompare] at hstep
    obtain rfl : lines' = some (exchange later lines p.1 p.2) := hstep
    rw [sortLoop, hcompare]
    exact hnext

/-- The loops of the command are the whole sort of lines that it can sort. -/
theorem sortLoop_sortable {lines : List Bytes} (h : Sortable lines) :
    (sortLoop (loopPairs lines.length) lines).2 = some (sort later lines) := by
  have hpairs : ∀ p ∈ loopPairs lines.length, p.1 < lines.length ∧ p.2 < lines.length := by
    intro p hp
    obtain ⟨hij, hj⟩ := (mem_loopPairs _ p.1 p.2).mp hp
    exact ⟨by omega, hj⟩
  by_cases htwo : 2 ≤ lines.length
  · exact sortLoop_eq (h.2 htwo) (loopPairs lines.length) hpairs
  · -- there is nothing to compare
    have hnone : loopPairs lines.length = [] := by
      refine List.eq_nil_iff_forall_not_mem.mpr fun p hp => ?_
      obtain ⟨hij, hj⟩ := (mem_loopPairs _ p.1 p.2).mp hp
      omega
    have hsort : sort later lines = exchangeAll later (loopPairs lines.length) lines := rfl
    rw [hsort, hnone]
    rfl

/-! ## §3. The command. -/

/-- The event that the sort writes to the log. -/
def sorted : Bytes := text "- Child process completed sorting student grades\n"

/-- The lines among what has been printed. -/
def printedLines (stdout : List Output) : List Bytes :=
  stdout.filterMap fun o => match o with
    | .line s => some s
    | _ => none

theorem printedLines_append (stdout more : List Output) :
    printedLines (stdout ++ more) = printedLines stdout ++ printedLines more :=
  List.filterMap_append

theorem printedLines_lines (heading : Bytes) (lines : List Bytes) :
    printedLines (.text heading :: lines.map .line) = lines := by
  unfold printedLines
  rw [List.filterMap_cons, List.filterMap_map]
  exact List.filterMap_some

theorem printedLines_ending (fs : Files) (event : Bytes) : printedLines (ending fs event) = [] :=
  List.filterMap_eq_nil_iff.mpr fun o ho => by
    rw [List.eq_of_mem_replicate ho]

/-- **The command prints the records that the sort handles**, in some order. -/
theorem sortAll_records {fs : Files} {buf command file content : Bytes} {more : List Bytes}
    (hwords : words 32 buf = command :: file :: more) (hfile : Openable fs .rdwr file content) :
    (printedLines (sortStudentGrades fs buf).stdout).Perm (sortRecords content) := by
  have harg : (strtok 32 (strtok 32 buf).2).1 = some file := argument_eq hwords 0
  unfold sortStudentGrades sortRecords
  simp only
  rw [harg, hfile.open_eq]
  simp only
  generalize records [] content = lines
  by_cases hlong : lines.length > 100
  · rw [if_pos hlong, if_pos hlong]
    exact .refl _
  rw [if_neg hlong, if_neg hlong]
  have hsome := sortLoop_isSome (loopPairs lines.length) lines
  rw [sortLoop_uses, loopPairs_named] at hsome
  rcases hsort : sortLoop (loopPairs lines.length) lines with ⟨uses, _ | after⟩
  · exact .refl _
  · rw [hsort] at hsome
    have hsorted := sortLoop_sortable ⟨Nat.not_lt.mp hlong, hsome.mp rfl⟩
    rw [hsort] at hsorted
    obtain rfl : after = sort later lines := Option.some.inj hsorted
    simp only
    rw [completed_stdout]
    rw [printedLines_append, printedLines_ending, List.append_nil, printedLines_lines]
    exact sort_perm later lines

/-- **`sortAll` prints the lines of the file in the order of their first tokens.** -/
theorem sortAll_prints {fs : Files} {buf command file content : Bytes} {more : List Bytes}
    (hwords : words 32 buf = command :: file :: more) (hfile : Openable fs .rdwr file content)
    (hplain : Plain content) (hroom : (textLines content).length ≤ 100)
    (hnamed : ∀ line ∈ textLines content, Named line) :
    ∃ lines : List Bytes, lines.Perm (textLines content)
      ∧ lines.Pairwise (fun a b => strcmpPos (firstToken a) (firstToken b) = false)
      ∧ (sortStudentGrades fs buf).stdout
        = .text (text "\nSorted Student List: \n") :: lines.map .line ++ ending fs sorted := by
  have hrecords := (records_eq_iff content).mpr hplain
  refine ⟨sort later (textLines content), sort_perm later _, sort_sorted later later_total _, ?_⟩
  have hloop := sortLoop_sortable ⟨hroom, fun _ => hnamed⟩
  have harg : (strtok 32 (strtok 32 buf).2).1 = some file := argument_eq hwords 0
  unfold sortStudentGrades
  simp only
  rw [harg, hfile.open_eq]
  simp only
  rw [hrecords, if_neg (Nat.not_lt.mpr hroom)]
  rcases hsort : sortLoop (loopPairs (textLines content).length) (textLines content)
    with ⟨uses, lines⟩
  rw [hsort] at hloop
  obtain rfl : lines = some (sort later (textLines content)) := hloop
  exact completed_stdout _ _ fs sorted

/-- The file `g` with the lines `B` and `A`, and the command `sortAll g`. -/
def unsorted : Files := ⟨fun _ => some [66, 10, 65, 10], fun _ _ => true⟩

theorem unsorted_lines : textLines [66, 10, 65, 10] = [[66], [65]] := by decide

theorem sortAll_prints_unsorted : ∃ lines : List Bytes, lines.Perm (textLines [66, 10, 65, 10])
    ∧ lines.Pairwise (fun a b => strcmpPos (firstToken a) (firstToken b) = false)
    ∧ (sortStudentGrades unsorted [115, 111, 114, 116, 65, 108, 108, 32, 103]).stdout
      = .text (text "\nSorted Student List: \n") :: lines.map .line ++ ending unsorted sorted := by
  have hplain : Plain [66, 10, 65, 10] := by
    refine ⟨?_, Or.inr rfl⟩
    rw [unsorted_lines]
    decide
  have hnamed : ∀ line ∈ textLines [66, 10, 65, 10], Named line := by
    rw [unsorted_lines]
    intro line hline
    rcases List.mem_cons.mp hline with rfl | hline
    · exact ⟨66, List.mem_cons_self, by decide⟩
    · rw [List.mem_singleton.mp hline]
      exact ⟨65, List.mem_cons_self, by decide⟩
  have hroom : (textLines [66, 10, 65, 10]).length ≤ 100 := by
    rw [unsorted_lines]
    decide
  exact sortAll_prints rfl ⟨rfl, rfl⟩ hplain hroom hnamed

end SystemOS.Grades.Sorting
