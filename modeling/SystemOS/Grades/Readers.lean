/-
  SystemOS.Grades.Readers — what the three readers make of a grade file.

  `searchStudentGrade`, `showAllStudents` and `sortStudentGrades` read byte by byte into a buffer of
  50 and handle it at a newline, or when it is full.  The search may end before the file does, the
  sort has room for 100 lines, and both are killed by a comparison with a token that is missing.

  Main results:
    * `records_lines` — what the buffer makes of a file made of lines.
    * `readers_iff`   — when all three handle exactly the lines of the file.
-/
import SystemOS.Grades.Tokens
import SystemOS.Lib.Buffers
import SystemOS.Lib.TextLines

namespace SystemOS.Grades.Readers

open SystemOS.Lib.Lines SystemOS.Lib.Buffers SystemOS.Lib.Strtok
open SystemOS.Grades.Shell SystemOS.Grades.Tokens

variable {content line l s name surname : Bytes} {ls : List Bytes}

/-! ## §1. The records handled. -/

/-- The records that the loop of `searchStudentGrade` takes apart and compares: it goes on as long as
    it has not found the student, and does not get through the record that it is killed at. -/
def searchRecords (name surname : Bytes) : List Bytes → List Bytes
  | [] => []
  | line :: lines => match (searchLoop (some name) (some surname) [line]).2 with
      | .notFound => line :: searchRecords name surname lines
      | .found _ _ _ => [line]
      | .killed => []

/-- The records that `showAllStudents` takes apart. -/
def showRecords (content : Bytes) : List Bytes := records [] content

/-- The records that `sortStudentGrades` sorts and prints: none if the array is too small for them, or
    if it is killed in a comparison. -/
def sortRecords (content : Bytes) : List Bytes :=
  let lines := records [] content
  if lines.length > 100 then []
  else match (sortLoop (loopPairs lines.length) lines).2 with
    | none => []
    | some _ => lines

/-- The row that `showAllStudents` prints for a record. -/
def row (line : Bytes) : Output :=
  let (name, rest) := strtok 32 line
  let (surname, rest) := strtok 32 rest
  let (grade, _) := strtok 32 rest
  .record name surname grade

/-- The loop over a line, and over the lines behind it if it goes on. -/
theorem searchLoop_cons (arg1 arg2 : Option Bytes) (line : Bytes) (lines : List Bytes) :
    searchLoop arg1 arg2 (line :: lines) = match searchLoop arg1 arg2 [line] with
      | (uses, .notFound) =>
        let (more, search) := searchLoop arg1 arg2 lines
        (uses ++ more, search)
      | ended => ended := by
  rw [searchLoop, searchLoop]
  dsimp only
  cases (strtok 32 line).1 with
  | none => rfl
  | some n =>
    cases arg1 with
    | none => rfl
    | some name =>
      dsimp only
      by_cases hname : n = name
      · rw [if_pos hname, if_pos hname]
        cases (strtok 44 (strtok 32 line).2).1 with
        | none => rfl
        | some sn =>
          cases arg2 with
          | none => rfl
          | some surname =>
            dsimp only
            by_cases hfound : sn = surname
            · rw [if_pos hfound, if_pos hfound]
            · rw [if_neg hfound, if_neg hfound]
              rfl
      · rw [if_neg hname, if_neg hname]
        rfl

/-- **The records that the search gets through** are all of them, or those up to the student, or
    those in front of the one that it is killed at. -/
theorem searchLoop_records (name surname : Bytes) (lines : List Bytes) :
    match (searchLoop (some name) (some surname) lines).2 with
    | .notFound => searchRecords name surname lines = lines
    | .found _ _ _ => ∃ rest, lines = searchRecords name surname lines ++ rest
    | .killed => ∃ line rest, lines = searchRecords name surname lines ++ line :: rest
        ∧ (searchLoop (some name) (some surname) [line]).2 = .killed := by
  induction lines with
  | nil => rfl
  | cons line lines ih =>
    rw [searchRecords, searchLoop_cons _ _ line lines]
    rcases hline : searchLoop (some name) (some surname) [line] with ⟨uses, search⟩
    cases search with
    | found _ _ _ => exact ⟨lines, rfl⟩
    | killed => exact ⟨line, lines, rfl, congrArg Prod.snd hline⟩
    | notFound =>
      dsimp only
      rcases hrest : searchLoop (some name) (some surname) lines with ⟨more, search⟩
      rw [hrest] at ih
      cases search with
      | notFound => exact congrArg (line :: ·) ih
      | found _ _ _ =>
        obtain ⟨rest, hlines⟩ := ih
        exact ⟨rest, congrArg (line :: ·) hlines⟩
      | killed =>
        obtain ⟨next, rest, hlines, hkilled⟩ := ih
        exact ⟨next, rest, congrArg (line :: ·) hlines, hkilled⟩

/-- Without restriction there is a row for each record. -/
theorem showLoop_records (startEntry endEntry count : Int) (content : Bytes) :
    showLoop false false startEntry endEntry count (showRecords content)
      = (showRecords content).map row := by
  generalize showRecords content = lines
  induction lines generalizing count with
  | nil => rfl
  | cons line lines ih => exact congrArg (row line :: ·) (ih (count + 1))

/-- The loops get through exactly when they use no NULL token. -/
theorem sortLoop_isSome (pairs : List (Nat × Nat)) (lines : List Bytes) :
    (sortLoop pairs lines).2.isSome = true ↔ AllOk (sortLoop pairs lines).1 := by
  induction pairs generalizing lines with
  | nil => exact iff_of_true rfl allOk_nil
  | cons p pairs ih =>
    obtain ⟨i, j⟩ := p
    rw [sortLoop]
    by_cases hnamed : NamedAt lines i ∧ NamedAt lines j
    · obtain ⟨use, lines', heq, hok, -⟩ := compareSwap_named hnamed.1 hnamed.2
      rw [heq]
      exact (ih lines').trans ((allOk_cons _ _).trans (and_iff_right hok)).symm
    · obtain ⟨use, heq, hbad⟩ := compareSwap_unnamed hnamed
      rw [heq]
      refine iff_of_false Bool.false_ne_true fun hok => ?_
      rw [(allOk_singleton use).mp hok] at hbad
      cases hbad

/-- **The sort handles all records or none.** -/
theorem sortRecords_cases (content : Bytes) :
    Sortable (records [] content) ∧ sortRecords content = records [] content
      ∨ ¬ Sortable (records [] content) ∧ sortRecords content = [] := by
  unfold sortRecords
  generalize records [] content = lines
  have hsome := sortLoop_isSome (loopPairs lines.length) lines
  rw [sortLoop_uses, loopPairs_named] at hsome
  unfold Sortable
  by_cases hlong : lines.length > 100
  · exact .inr ⟨fun h => absurd h.1 (by omega), if_pos hlong⟩
  · rw [if_neg hlong]
    cases hsort : (sortLoop (loopPairs lines.length) lines).2 with
    | none =>
      rw [hsort] at hsome
      exact .inr ⟨fun h => absurd (hsome.mpr h.2) Bool.false_ne_true, rfl⟩
    | some sorted =>
      rw [hsort] at hsome
      exact .inl ⟨⟨Nat.not_lt.mp hlong, hsome.mp rfl⟩, rfl⟩

/-! ## §2. What the buffer makes of a file. -/

/-- A byte that is no newline joins the line while there is room. -/
theorem records_cons {b : UInt8} (hb : 10 ≠ b) (hroom : line.length < 49) (rest : Bytes) :
    records line (b :: rest) = records (line ++ [b]) rest := by
  have hgo : ¬ (b = 10 ∨ line.length ≥ MAX_LEN - 1) := by
    rintro (heq | hfull)
    · exact hb heq.symm
    · unfold MAX_LEN at hfull
      omega
  rw [records, if_neg hgo]

theorem records_line (hl : 10 ∉ l) (hlen : line.length + l.length ≤ 49) (rest : Bytes) :
    records line (l ++ 10 :: rest) = cstr (line ++ l) :: records [] rest := by
  induction l generalizing line with
  | nil =>
    rw [List.append_nil]
    exact if_pos (.inl rfl)
  | cons b l ih =>
    rw [List.mem_cons, not_or] at hl
    rw [List.length_cons] at hlen
    have hnext : (line ++ [b]).length + l.length ≤ 49 := by
      rw [List.length_append, List.length_singleton]
      omega
    rw [List.cons_append, records_cons hl.1 (by omega), ih hl.2 hnext, List.append_assoc]
    rfl

/-- What is behind the last newline stays in the buffer. -/
theorem records_rest (hs : 10 ∉ s) (hlen : line.length + s.length ≤ 49) : records line s = [] := by
  induction s generalizing line with
  | nil => rfl
  | cons b s ih =>
    rw [List.mem_cons, not_or] at hs
    rw [List.length_cons] at hlen
    rw [records_cons hs.1 (by omega)]
    refine ih hs.2 ?_
    rw [List.length_append, List.length_singleton]
    omega

/-- Lines that fit into the buffer, in front of anything. -/
theorem records_unlines (hls : ∀ l ∈ ls, 10 ∉ l ∧ l.length ≤ 49) (rest : Bytes) :
    records [] (unlines ls ++ rest) = ls.map cstr ++ records [] rest := by
  induction ls with
  | nil => rfl
  | cons l ls ih =>
    obtain ⟨hl, hls⟩ := List.forall_mem_cons.mp hls
    rw [unlines_cons, List.append_assoc, List.cons_append,
      records_line hl.1 (by rw [List.length_nil]; omega), ih hls]
    rfl

/-- **The records of a file made of lines** that fit into the buffer. -/
theorem records_lines (hls : ∀ l ∈ ls, 10 ∉ l ∧ l.length ≤ 49) (hs : 10 ∉ s)
    (hlen : s.length ≤ 49) : records [] (unlines ls ++ s) = ls.map cstr := by
  have hrest : records [] s = [] := records_rest hs (by rw [List.length_nil]; omega)
  rw [records_unlines hls, hrest, List.append_nil]

/-- A record is a string that fits into the buffer. -/
theorem records_spec (hline : line.length ≤ 49) (h : l ∈ records line content) :
    l.length ≤ 49 ∧ 0 ∉ l := by
  induction content generalizing line with
  | nil => cases h
  | cons b content ih =>
    rw [records] at h
    split at h
    · rcases List.mem_cons.mp h with rfl | h
      · refine ⟨Nat.le_trans (List.takeWhile_sublist _).length_le hline, fun hmem => ?_⟩
        exact absurd (List.mem_takeWhile_imp hmem) (by decide)
      · exact ih (by decide : ([] : Bytes).length ≤ 49) h
    next hgo =>
      refine ih ?_ h
      unfold MAX_LEN at hgo
      rw [List.length_append, List.length_singleton]
      omega

/-- Every line fits into the buffer, is a string, and has its newline. -/
structure Plain (content : Bytes) : Prop where
  fits : ∀ l ∈ textLines content, l.length ≤ 49 ∧ 0 ∉ l
  ended : Ended content

theorem records_eq_iff (content : Bytes) : records [] content = textLines content ↔ Plain content := by
  obtain ⟨ls, s, rfl, hls, hs⟩ := exists_unlines content
  have htext := textLines_unlines hls hs
  constructor
  · intro h
    have hfits : ∀ l ∈ textLines (unlines ls ++ s), l.length ≤ 49 ∧ 0 ∉ l := fun l hl =>
      records_spec (by decide : ([] : Bytes).length ≤ 49) (h ▸ hl)
    refine ⟨hfits, (ended_unlines ls hs).mpr ?_⟩
    -- a line without its newline would be one line too many
    by_contra hne
    rw [htext, if_neg hne] at hfits h
    rw [records_lines (fun l hl => ⟨hls l hl, (hfits l (List.mem_append_left _ hl)).1⟩) hs
      (hfits s (by simp)).1] at h
    have hlen := congrArg List.length h
    rw [List.length_map, List.length_append, List.length_singleton] at hlen
    omega
  · rintro ⟨hfits, hended⟩
    have hnil := (ended_unlines ls hs).mp hended
    rw [htext, if_pos hnil, List.append_nil] at hfits ⊢
    rw [records_lines (fun l hl => ⟨hls l hl, (hfits l hl).1⟩) hs (by rw [hnil]; exact Nat.zero_le _)]
    refine (List.map_congr_left fun l hl => ?_).trans (List.map_id ls)
    exact cstr_of_no_nul (hfits l hl).2

/-! ## §3. What the search makes of its records. -/

/-- The line has what the comparisons with the name and the surname need. -/
def Comparable (name line : Bytes) : Prop :=
  Named line ∧ ((strtok 32 line).1 = some name → HasSurname line)

/-- The search goes on behind a line that can be compared and does not match; at any other line
    that does not match it is killed. -/
theorem search_outcome (hmatch : isMatch name surname line = false) :
    Comparable name line ∧ (searchLoop (some name) (some surname) [line]).2 = .notFound
      ∨ ¬ Comparable name line ∧ (searchLoop (some name) (some surname) [line]).2 = .killed := by
  have hnamed := named_iff line
  have hsurname := hasSurname_iff line
  unfold Comparable
  rw [searchLoop]
  dsimp only
  cases hn : (strtok 32 line).1 with
  | none => exact .inr ⟨fun h => hnamed.mp h.1 hn, rfl⟩
  | some n =>
    have hline : Named line := hnamed.mpr (by rw [hn]; exact Option.some_ne_none n)
    dsimp only
    by_cases hname : n = name
    · subst hname
      rw [if_pos rfl]
      cases hs : (strtok 44 (strtok 32 line).2).1 with
      | none => exact .inr ⟨fun h => hsurname.mp (h.2 rfl) hs, rfl⟩
      | some sn =>
        have hne : sn ≠ surname := fun heq => by
          rw [isMatch, hn, hs, heq] at hmatch
          simp at hmatch
        dsimp only
        rw [if_neg hne]
        exact .inl ⟨⟨hline, fun _ => hsurname.mpr (by rw [hs]; exact Option.some_ne_none sn)⟩, rfl⟩
    · rw [if_neg hname]
      exact .inl ⟨⟨hline, fun heq => absurd (Option.some.inj heq) hname⟩, rfl⟩

/-- When nothing matches, the search handles all records exactly when it can compare each of
    them. -/
theorem searchRecords_eq_iff (hmatch : ∀ l ∈ ls, isMatch name surname l = false) :
    searchRecords name surname ls = ls ↔ ∀ l ∈ ls, Comparable name l := by
  induction ls with
  | nil => exact iff_of_true rfl nofun
  | cons l ls ih =>
    obtain ⟨hl, hls⟩ := List.forall_mem_cons.mp hmatch
    rw [searchRecords, List.forall_mem_cons]
    rcases search_outcome hl with ⟨hcmp, hgo⟩ | ⟨hcmp, hkilled⟩
    · rw [hgo, and_iff_right hcmp, ← ih hls]
      exact ⟨fun h => (List.cons.inj h).2, congrArg (l :: ·)⟩
    · rw [hkilled]
      exact iff_of_false nofun fun h => hcmp h.1

/-! ## §4. The readers. -/

/-- The three readers handle the lines of the file, every one to the end: the search when nothing
    matches, the listing without restriction, and the sort. -/
structure ReadLines (content name surname : Bytes) : Prop where
  search : (∀ l ∈ textLines content, isMatch name surname l = false) →
    searchRecords name surname (records [] content) = textLines content
  listing : showRecords content = textLines content
  sorting : sortRecords content = textLines content

/-- **The readers handle exactly the lines of a file** when every line fits into the buffer, has no
    NUL and has its newline, the sort has room for them and a name in each of two or more, and a
    search without a match can compare each of them. -/
theorem readers_iff (content name surname : Bytes) : ReadLines content name surname ↔
    Plain content ∧ Sortable (textLines content) ∧
      ((∀ l ∈ textLines content, isMatch name surname l = false) →
        ∀ l ∈ textLines content, Comparable name l) := by
  constructor
  · intro h
    have heq : records [] content = textLines content := h.listing
    refine ⟨(records_eq_iff content).mp heq, ?_, fun hmatch => ?_⟩
    · have hsorting := h.sorting
      rcases sortRecords_cases content with ⟨hsortable, -⟩ | ⟨-, hnone⟩
      · exact heq ▸ hsortable
      · rw [← hsorting, hnone]
        exact ⟨Nat.zero_le 100, fun _ => nofun⟩
    · have hsearch := h.search hmatch
      rw [heq] at hsearch
      exact (searchRecords_eq_iff hmatch).mp hsearch
  · rintro ⟨hplain, hsortable, hsearch⟩
    have heq := (records_eq_iff content).mpr hplain
    refine ⟨fun hmatch => ?_, heq, ?_⟩
    · rw [heq]
      exact (searchRecords_eq_iff hmatch).mpr (hsearch hmatch)
    · rcases sortRecords_cases content with ⟨-, hall⟩ | ⟨hnot, -⟩
      · exact hall.trans heq
      · rw [heq] at hnot
        exact absurd hsortable hnot

/-- A last line without its newline is lost. -/
theorem unterminated_lost : ¬ ∀ content name surname : Bytes, ReadLines content name surname := by
  intro hclaim
  exact absurd (hclaim [97] [] []).listing (by decide)

/-! ## §5. Commands that find their file. -/

/-- The file has this content, and may be opened so. -/
structure Openable (fs : Files) (flags : Flags) (file content : Bytes) : Prop where
  content_eq : fs.content file = some content
  permitted : fs.permitted flags file = true

theorem Openable.open_eq {fs : Files} {flags : Flags} {file content : Bytes}
    (h : Openable fs flags file content) : fs.open_ flags (some file) = some (content, fs) := by
  simp only [Files.open_, h.permitted, h.content_eq, if_true]

/-- What each process prints that returns from the log. -/
def ending (fs : Files) (event : Bytes) : List Output :=
  List.replicate (saveToLog fs event).2 (.text (text "Operation finished successfully.\n"))

theorem completed_stdout (uses : List Use) (stdout : List Output) (fs : Files) (event : Bytes) :
    (completed uses stdout fs event).stdout = stdout ++ ending fs event := rfl

/-- The rows among what has been printed. -/
def rows (stdout : List Output) : List Output :=
  stdout.filter fun o => match o with
    | .record _ _ _ => true
    | _ => false

theorem rows_append (stdout more : List Output) :
    rows (stdout ++ more) = rows stdout ++ rows more := List.filter_append stdout more

theorem rows_ending (fs : Files) (event : Bytes) : rows (ending fs event) = [] :=
  List.filter_eq_nil_iff.mpr fun o ho => by
    rw [List.eq_of_mem_replicate ho]
    exact Bool.false_ne_true

end SystemOS.Grades.Readers
