/-
  SystemOS.Grades.Pages — listing a grade file in pages.

  `listSomeStudents` computes the first and the last entry of a page, and `showAllStudents` counts
  the lines and prints those between them; it also prints the first five, or all.

  Main results:
    * `showLoop_some`, `showLoop_five` — which rows the loop prints in these modes.
    * `pages_cover` — the pages of a file are the rows of the whole list, and the first five rows
      are the first page of size 5.
    * `heading_differs` — what is printed above them is not the same.
-/
import SystemOS.Grades.Readers
import SystemOS.Lib.Utf8

namespace SystemOS.Grades.Pages

open SystemOS.Lib.Lines SystemOS.Lib.Strings SystemOS.Lib.Strtok SystemOS.Lib.Utf8
open SystemOS.Grades.Shell SystemOS.Grades.Tokens SystemOS.Grades.Readers

/-! ## §1. Pages of a list. -/

/-- The pages of a list are the list, as far as they reach. -/
theorem pages_flatten {α : Type} (l : List α) (n P : Nat) :
    (List.range P).flatMap (fun p => (l.drop (p * n)).take n) = l.take (P * n) := by
  induction P with
  | zero => rw [Nat.zero_mul]; rfl
  | succ P ih =>
    rw [List.range_succ, List.flatMap_append, ih, List.flatMap_singleton, Nat.succ_mul,
      List.take_add]

/-! ## §2. The rows of a mode. -/

/-- One line in the mode of `listSome`. -/
theorem showLoop_some_cons (startEntry endEntry count : Int) (line : Bytes) (lines : List Bytes) :
    showLoop false true startEntry endEntry count (line :: lines)
      = (if startEntry ≤ count + 1 ∧ count + 1 ≤ endEntry then [row line] else [])
        ++ showLoop false true startEntry endEntry (count + 1) lines := by
  rw [showLoop]
  simp [row]

/-- The loop in the mode of `listSome` prints the rows between the two entries. -/
theorem showLoop_some (start n count : Nat) (lines : List Bytes) :
    showLoop false true (start + 1) (start + n) count lines
      = ((lines.take (start + n - count)).drop (start - count)).map row := by
  induction lines generalizing count with
  | nil => rw [List.take_nil, List.drop_nil]; rfl
  | cons line lines ih =>
    have hnext := ih (count + 1)
    rw [showLoop_some_cons]
    push_cast at hnext
    rw [hnext]
    by_cases hend : start + n ≤ count
    · -- behind the page
      rw [if_neg (by omega), show start + n - count = 0 by omega,
        show start + n - (count + 1) = 0 by omega, List.take_zero, List.take_zero, List.drop_nil,
        List.drop_nil]
      rfl
    · rw [show start + n - count = start + n - (count + 1) + 1 by omega, List.take_succ_cons]
      by_cases hstart : start ≤ count
      · rw [if_pos (by omega), show start - count = 0 by omega,
          show start - (count + 1) = 0 by omega]
        rfl
      · rw [if_neg (by omega), show start - count = start - (count + 1) + 1 by omega,
          List.drop_succ_cons]
        rfl

/-- The loop in the mode of `listGrades` prints the first five rows and ends. -/
theorem showLoop_five (startEntry endEntry : Int) (count : Nat) (lines : List Bytes) :
    showLoop true false startEntry endEntry count lines = (lines.take (5 - count)).map row := by
  induction lines generalizing count with
  | nil => rw [List.take_nil]; rfl
  | cons line lines ih =>
    have hnext := ih (count + 1)
    push_cast at hnext
    rw [showLoop]
    by_cases hend : 5 ≤ count
    · have hbreak : (count : Int) + 1 > 5 := by omega
      rw [show 5 - count = 0 by omega]
      simp [hbreak]
    · have hgo : ¬ (count : Int) + 1 > 5 := by omega
      rw [show 5 - count = 5 - (count + 1) + 1 by omega, List.take_succ_cons]
      simp [hgo, hnext, row]

/-! ## §3. The commands. -/

/-- The event that a listing writes to the log. -/
def listed : Bytes := text "- Child process completed displaying student grades\n"

/-- What a listing prints: a heading, the rows of its mode, and the text behind them. -/
theorem showAllStudents_stdout {fs : Files} {file content : Bytes} (h : Openable fs .rdonly file content)
    {buf : Bytes} {listGrades listSome : Bool} {startEntry endEntry : Int} {filename : Option Bytes}
    (hfile : (if listSome then filename else (strtok 32 (strtok 32 buf).2).1) = some file) :
    (showAllStudents fs buf listGrades listSome startEntry endEntry filename).stdout
      = .text (text (if listGrades then "\n*** Showing first 5 entries ***\n"
          else if listSome then "\n*** Showing the students in the given range ***\n"
          else "\n*** Showing all students ***\n"))
        :: showLoop listGrades listSome startEntry endEntry 0 (records [] content) ++ ending fs listed := by
  unfold showAllStudents
  simp only
  rw [hfile]
  simp only
  rw [h.open_eq]
  rfl

/-- The headings and the text at the end are no rows. -/
theorem rows_listing (heading : Bytes) (lines : List Bytes) (fs : Files) :
    rows (.text heading :: lines.map row ++ ending fs listed) = lines.map row := by
  have hrows : rows (lines.map row) = lines.map row :=
    List.filter_eq_self.mpr fun o ho => by
      obtain ⟨line, -, rfl⟩ := List.mem_map.mp ho
      rfl
  have hsplit : rows (.text heading :: lines.map row ++ ending fs listed)
      = rows (lines.map row) ++ rows (ending fs listed) := rows_append (lines.map row) _
  rw [hsplit, hrows, rows_ending, List.append_nil]

/-- `showAll file` or `listGrades file`, while the file has this content. -/
structure AsksFile (fs : Files) (buf file content : Bytes) : Prop where
  openable : Openable fs .rdonly file content
  words_eq : ∃ command more, words 32 buf = command :: file :: more

/-- `listSome n page file`, while the file has this content. -/
structure AsksPage (fs : Files) (buf : Bytes) (n page : Nat) (file content : Bytes) : Prop where
  openable : Openable fs .rdonly file content
  words_eq : ∃ command num number more, words 32 buf = command :: num :: number :: file :: more
    ∧ atoi num = n ∧ atoi number = page

theorem showAll_stdout {fs : Files} {buf file content : Bytes} (h : AsksFile fs buf file content) :
    (showAllStudents fs buf false false 0 0 (some [])).stdout
      = .text (text "\n*** Showing all students ***\n") :: (records [] content).map row
        ++ ending fs listed := by
  obtain ⟨command, more, hwords⟩ := h.words_eq
  have hfile : (if false = true then some [] else (strtok 32 (strtok 32 buf).2).1) = some file :=
    argument_eq hwords 0
  rw [showAllStudents_stdout h.openable hfile]
  exact congrArg (_ :: · ++ ending fs listed) (showLoop_records 0 0 0 content)

theorem listGrades_stdout {fs : Files} {buf file content : Bytes} (h : AsksFile fs buf file content) :
    (showAllStudents fs buf true false 0 0 (some [])).stdout
      = .text (text "\n*** Showing first 5 entries ***\n")
        :: ((records [] content).take 5).map row ++ ending fs listed := by
  obtain ⟨command, more, hwords⟩ := h.words_eq
  have hfile : (if false = true then some [] else (strtok 32 (strtok 32 buf).2).1) = some file :=
    argument_eq hwords 0
  rw [showAllStudents_stdout h.openable hfile]
  exact congrArg (_ :: · ++ ending fs listed) (showLoop_five 0 0 0 (records [] content))

/-- The entries of a page, from the one behind the earlier pages on. -/
theorem listSome_stdout {fs : Files} {buf : Bytes} {n p : Nat} {file content : Bytes}
    (h : AsksPage fs buf n (p + 1) file content) : (listSomeStudents fs buf).1.stdout
      = .text (text "\n*** Showing the students in the given range ***\n")
        :: (((records [] content).drop (p * n)).take n).map row ++ ending fs listed := by
  obtain ⟨command, num, number, more, hwords, hnum, hnumber⟩ := h.words_eq
  unfold listSomeStudents
  dsimp only
  rw [show (strtok 32 (strtok 32 buf).2).1 = _ from argument_eq hwords 0,
    show (strtok 32 (strtok 32 (strtok 32 buf).2).2).1 = _ from argument_eq hwords 1,
    show (strtok 32 (strtok 32 (strtok 32 (strtok 32 buf).2).2).2).1 = _
      from argument_eq hwords 2]
  show (showAllStudents fs buf false true ((atoi number - 1) * atoi num + 1)
    (atoi number * atoi num) (some file)).stdout = _
  have hstart : ((p + 1 : Nat) - 1 : Int) * n + 1 = (p * n : Nat) + 1 := by
    push_cast
    ring
  have hend : ((p + 1 : Nat) : Int) * n = (p * n : Nat) + n := by
    push_cast
    ring
  have hloop := showLoop_some (p * n) n 0 (records [] content)
  rw [showAllStudents_stdout h.openable (if_pos rfl), hnum, hnumber, hstart, hend]
  rw [Nat.sub_zero, Nat.sub_zero, List.drop_take, Nat.add_sub_cancel_left] at hloop
  exact congrArg (_ :: · ++ ending fs listed) hloop

/-! ## §4. All pages. -/

/-- `P` pages of `n` entries reach over `count` records, and the numbers of the entries are values of
    an `int`. -/
structure Paging (n P count : Nat) : Prop where
  pos : 1 ≤ n
  reaches : count ≤ P * n
  in_range : P * n < 2 ^ 31

/-- **The pages are the whole list**: what `listSome` prints for each of them, one after the other, is
    what `showAll` prints, a row for each record; and `listGrades` prints what `listSome 5 1` does
    below another heading. -/
theorem pages_cover {file content : Bytes} {n P : Nat}
    (hpaging : Paging n P (records [] content).length) {fs : Nat → Files} {buf : Nat → Bytes}
    (hpages : ∀ p < P, AsksPage (fs p) (buf p) n (p + 1) file content) {fs' : Files}
    {bufAll bufGrades bufSome : Bytes} (hall : AsksFile fs' bufAll file content)
    (hgrades : AsksFile fs' bufGrades file content)
    (hsome : AsksPage fs' bufSome 5 1 file content) :
    (List.range P).flatMap (fun p => rows (listSomeStudents (fs p) (buf p)).1.stdout)
        = rows (showAllStudents fs' bufAll false false 0 0 (some [])).stdout
      ∧ rows (showAllStudents fs' bufAll false false 0 0 (some [])).stdout
        = (records [] content).map row
      ∧ ∃ printed, (showAllStudents fs' bufGrades true false 0 0 (some [])).stdout
          = .text (text "\n*** Showing first 5 entries ***\n") :: printed
        ∧ (listSomeStudents fs' bufSome).1.stdout
          = .text (text "\n*** Showing the students in the given range ***\n") :: printed := by
  have hrows : rows (showAllStudents fs' bufAll false false 0 0 (some [])).stdout
      = (records [] content).map row := by
    rw [showAll_stdout hall, rows_listing]
  refine ⟨?_, hrows, _, listGrades_stdout hgrades, ?_⟩
  · have hpage : ∀ p ∈ List.range P, rows (listSomeStudents (fs p) (buf p)).1.stdout
        = (((records [] content).drop (p * n)).take n).map row := fun p hp => by
      rw [listSome_stdout (hpages p (List.mem_range.mp hp)), rows_listing]
    rw [hrows, List.flatMap_congr hpage, ← List.map_flatMap, pages_flatten,
      List.take_of_length_le hpaging.reaches]
  · rw [listSome_stdout hsome]
    rfl

/-- Three students. -/
def class3 : Bytes :=
  [65, 32, 66, 44, 32, 67, 10, 68, 32, 69, 44, 32, 70, 10, 71, 32, 72, 44, 32, 73, 10]

/-- The file `g` with the three students, and the three ways to list it. -/
def threeStudents : Files := ⟨fun _ => some class3, fun _ _ => true⟩

def showAllBuf : Bytes := [115, 104, 111, 119, 65, 108, 108, 32, 103]

def listGradesBuf : Bytes := [108, 105, 115, 116, 71, 114, 97, 100, 101, 115, 32, 103]

/-- `listSome n p g`, for digits `n` and `p`. -/
def listSomeBuf (n p : UInt8) : Bytes :=
  [108, 105, 115, 116, 83, 111, 109, 101, 32, 48 + n, 32, 48 + p, 32, 103]

theorem threeStudents_openable : Openable threeStudents .rdonly [103] class3 := ⟨rfl, rfl⟩

theorem asks_showAll : AsksFile threeStudents showAllBuf [103] class3 :=
  ⟨threeStudents_openable, _, _, rfl⟩

theorem asks_listGrades : AsksFile threeStudents listGradesBuf [103] class3 :=
  ⟨threeStudents_openable, _, _, rfl⟩

theorem asks_listSome : AsksPage threeStudents (listSomeBuf 5 1) 5 1 [103] class3 :=
  ⟨threeStudents_openable, _, _, _, _, rfl, by decide, by decide⟩

/-- Two pages of two cover three students. -/
theorem pages_cover_three :
    (List.range 2).flatMap (fun p => rows (listSomeStudents threeStudents
          (listSomeBuf 2 (UInt8.ofNat (p + 1)))).1.stdout)
        = rows (showAllStudents threeStudents showAllBuf false false 0 0 (some [])).stdout
      ∧ rows (showAllStudents threeStudents showAllBuf false false 0 0 (some [])).stdout
        = (records [] class3).map row
      ∧ (records [] class3).length = 3
      ∧ ∃ printed, (showAllStudents threeStudents listGradesBuf true false 0 0 (some [])).stdout
          = .text (text "\n*** Showing first 5 entries ***\n") :: printed
        ∧ (listSomeStudents threeStudents (listSomeBuf 5 1)).1.stdout
          = .text (text "\n*** Showing the students in the given range ***\n") :: printed := by
  have hpages : ∀ p < 2, AsksPage threeStudents (listSomeBuf 2 (UInt8.ofNat (p + 1))) 2 (p + 1)
      [103] class3 := fun p hp => by
    rcases Nat.lt_succ_iff_lt_or_eq.mp hp with hp | rfl
    · obtain rfl : p = 0 := Nat.lt_one_iff.mp hp
      exact ⟨threeStudents_openable, _, _, _, _, rfl, by decide, by decide⟩
    · exact ⟨threeStudents_openable, _, _, _, _, rfl, by decide, by decide⟩
  obtain ⟨hconcat, hall, hheadings⟩ := pages_cover (n := 2) (P := 2) ⟨by decide, by decide, by decide⟩
    hpages asks_showAll asks_listGrades asks_listSome
  exact ⟨hconcat, hall, by decide, hheadings⟩

/-- The heading of `listGrades` is not that of `listSome`. -/
theorem heading_differs : ¬ ∀ (fs : Files) (file content bufGrades bufSome : Bytes),
    AsksFile fs bufGrades file content → AsksPage fs bufSome 5 1 file content →
      (showAllStudents fs bufGrades true false 0 0 (some [])).stdout
        = (listSomeStudents fs bufSome).1.stdout := by
  intro hclaim
  have heq := hclaim threeStudents [103] _ listGradesBuf _ asks_listGrades asks_listSome
  rw [listGrades_stdout asks_listGrades, listSome_stdout asks_listSome] at heq
  have htext := (Output.text.inj (List.cons.inj heq).1)
  exact absurd (utf8_inj.mp htext) (by decide)

end SystemOS.Grades.Pages
