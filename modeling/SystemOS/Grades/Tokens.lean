/-
  SystemOS.Grades.Tokens — which commands use a token that is not there.

  `main` makes sure of the first argument only; each command needs more words than that, and the
  readers need more of the lines of a file than that they are lines.

  Main results:
    * `round_ok_iff`    — one turn of `main` uses no NULL token, and stores no line outside the
      array, exactly when the line has the words and the file the lines that the command needs.
    * `session_ok_iff`  — the same for any number of turns.
    * `empty_line_null` — an empty line.
-/
import Mathlib.Data.List.GetD
import SystemOS.Grades.Shell

namespace SystemOS.Grades.Tokens

open SystemOS.Lib.Lines SystemOS.Lib.Strings SystemOS.Lib.Strtok SystemOS.Grades.Shell

/-! ## §1. Tokens and words. -/

/-- What is left of a string after `n` calls of `strtok`. -/
def skip (buf : Bytes) : Nat → Bytes
  | 0 => buf
  | n + 1 => (strtok 32 (skip buf n)).2

theorem words_skip (buf : Bytes) (n : Nat) : words 32 (skip buf n) = (words 32 buf).drop n := by
  induction n with
  | zero => rfl
  | succ n ih =>
    show words 32 (strtok 32 (skip buf n)).2 = _
    rw [(strtok_words 32 _).2, ih, List.tail_drop]

/-- The tokens of a string are its words. -/
theorem token_eq (buf : Bytes) (n : Nat) : (strtok 32 (skip buf n)).1 = (words 32 buf)[n]? := by
  rw [(strtok_words 32 _).1, words_skip, List.head?_drop]

/-! ## §2. The commands with one file. -/

/-- All uses are in order. -/
def AllOk (uses : List Use) : Prop := ∀ u ∈ uses, u.ok = true

theorem allOk_nil : AllOk [] := nofun

theorem allOk_cons (u : Use) (us : List Use) : AllOk (u :: us) ↔ u.ok = true ∧ AllOk us :=
  List.forall_mem_cons

theorem allOk_append (us vs : List Use) : AllOk (us ++ vs) ↔ AllOk us ∧ AllOk vs :=
  List.forall_mem_append

theorem allOk_singleton (u : Use) : AllOk [u] ↔ u.ok = true := List.forall_mem_singleton

theorem not_allOk {us : List Use} (u : Use) (hu : u ∈ us) (hbad : u.ok = false) : ¬ AllOk us := by
  intro h
  rw [h u hu] at hbad
  exact nomatch hbad

@[simp] theorem completed_uses (uses : List Use) (stdout : List Output) (fs : Files)
    (event : Bytes) : (completed uses stdout fs event).uses = uses := rfl

@[simp] theorem failed_uses (uses : List Use) (stdout : List Output) (fs : Files)
    (event : Bytes) : (failed uses stdout fs event).uses = uses := rfl

variable {buf command : Bytes} {args : List Bytes} (fs : Files)

/-- The words after the command are its arguments. -/
theorem argument_eq (h : words 32 buf = command :: args) (n : Nat) :
    (strtok 32 (skip buf (n + 1))).1 = args[n]? := by
  rw [token_eq, h, List.getElem?_cons_succ]

theorem isSome_getElem?_iff (n : Nat) : (args[n]?).isSome = true ↔ n + 1 ≤ args.length := by
  rw [Option.isSome_iff_ne_none, Ne, List.getElem?_eq_none_iff, Nat.not_le]
  exact Nat.lt_iff_add_one_le

theorem createFile_uses (h : words 32 buf = command :: args) :
    AllOk (createFile fs buf).uses ↔ 1 ≤ args.length := by
  rw [← isSome_getElem?_iff 0, ← argument_eq h 0]
  refine Iff.trans ?_ (allOk_singleton (.open_ _))
  unfold createFile
  dsimp only
  cases fs.open_ .rdonlyCreat (strtok 32 (strtok 32 buf).2).1 <;> exact Iff.rfl

theorem addStudentGrade_uses (h : words 32 buf = command :: args) :
    AllOk (addStudentGrade fs buf).uses ↔ 4 ≤ args.length := by
  rw [← isSome_getElem?_iff 3, ← argument_eq h 3]
  refine Iff.trans ?_ (allOk_singleton (.open_ _))
  unfold addStudentGrade
  dsimp only
  cases fs.open_ .wronlyAppend
    (strtok 32 (strtok 32 (strtok 32 (strtok 32 (strtok 32 buf).2).2).2).2).1 <;> exact Iff.rfl

/-- `showAllStudents` needs the name of the file. -/
theorem showAllStudents_uses (h : words 32 buf = command :: args) (listGrades listSome : Bool)
    (startEntry endEntry : Int) (filename : Option Bytes) :
    AllOk (showAllStudents fs buf listGrades listSome startEntry endEntry filename).uses
      ↔ (if listSome then filename else args[0]?).isSome = true := by
  rw [← argument_eq h 0]
  unfold showAllStudents
  dsimp only
  show _ ↔ (if listSome then filename else (strtok 32 (strtok 32 buf).2).1).isSome = true
  generalize (if listSome then filename else (strtok 32 (strtok 32 buf).2).1) = fileN
  cases fileN with
  | none => exact allOk_singleton (.strcpy none)
  | some f =>
    have hok : AllOk [Use.strcpy (some f), Use.open_ (some f)] :=
      (allOk_cons _ _).mpr ⟨rfl, (allOk_singleton _).mpr rfl⟩
    refine iff_of_true ?_ rfl
    dsimp only
    cases fs.open_ .rdonly (some f) <;> exact hok

/-- `listSomeStudents` needs two numbers and the name of the file. -/
theorem listSomeStudents_uses (h : words 32 buf = command :: args) :
    AllOk (listSomeStudents fs buf).1.uses ↔ 3 ≤ args.length := by
  unfold listSomeStudents
  dsimp only
  rw [show (strtok 32 (strtok 32 buf).2).1 = _ from argument_eq h 0,
    show (strtok 32 (strtok 32 (strtok 32 buf).2).2).1 = _ from argument_eq h 1,
    show (strtok 32 (strtok 32 (strtok 32 (strtok 32 buf).2).2).2).1 = _ from argument_eq h 2]
  rcases args with _ | ⟨n, _ | ⟨page, more⟩⟩
  · exact iff_of_false (not_allOk (.atoi none) (by simp) rfl) (by simp)
  · exact iff_of_false (not_allOk (.atoi none) (by simp) rfl) (by simp)
  · show AllOk (.atoi (some n) :: .atoi (some page) :: _) ↔ _
    rw [allOk_cons, allOk_cons, showAllStudents_uses fs h, if_pos rfl]
    cases more with
    | nil => exact iff_of_false (fun huses => nomatch huses.2.2) (by simp)
    | cons file more => exact iff_of_true ⟨rfl, rfl, rfl⟩ (by simp)

/-! ## §3. Searching. -/

/-- `strtok` finds a name in the line. -/
def Named (line : Bytes) : Prop := ∃ b ∈ line, b ≠ 32

theorem named_iff (line : Bytes) : Named line ↔ (strtok 32 line).1 ≠ none := by
  rw [Ne, strtok_none, Named]
  push Not
  rfl

/-- The line has a surname, up to a comma. -/
def HasSurname (line : Bytes) : Prop := ∃ b ∈ (strtok 32 line).2, b ≠ 44

theorem hasSurname_iff (line : Bytes) :
    HasSurname line ↔ (strtok 44 (strtok 32 line).2).1 ≠ none := by
  rw [Ne, strtok_none, HasSurname]
  push Not
  rfl

/-- The line is the one that is looked for. -/
def isMatch (name surname line : Bytes) : Bool :=
  (strtok 32 line).1 = some name && (strtok 44 (strtok 32 line).2).1 = some surname

/-- The lines up to the one that is looked for have a name, and a surname where the name is the
right one. -/
def Searchable (name surname : Bytes) (lines : List Bytes) : Prop :=
  ∀ line ∈ lines.takeWhile fun l => !isMatch name surname l,
    Named line ∧ ((strtok 32 line).1 = some name → HasSurname line)

theorem searchable_match {name surname line : Bytes} (h : isMatch name surname line = true)
    (lines : List Bytes) : Searchable name surname (line :: lines) := by
  intro l hl
  rw [List.takeWhile_cons, if_neg (by rw [h]; decide)] at hl
  exact nomatch hl

theorem searchable_cons {name surname line : Bytes} (h : isMatch name surname line = false)
    (lines : List Bytes) : Searchable name surname (line :: lines)
      ↔ (Named line ∧ ((strtok 32 line).1 = some name → HasSurname line))
        ∧ Searchable name surname lines := by
  rw [Searchable, List.takeWhile_cons, if_pos (by rw [h]; rfl), List.forall_mem_cons]
  rfl

/-- The loop uses no NULL token exactly when it can search the lines. -/
theorem searchLoop_uses (name surname : Bytes) (lines : List Bytes) :
    AllOk (searchLoop (some name) (some surname) lines).1 ↔ Searchable name surname lines := by
  induction lines with
  | nil => exact iff_of_true allOk_nil nofun
  | cons line lines ih =>
    have hnamed := named_iff line
    have hsurname := hasSurname_iff line
    rw [searchLoop]
    dsimp only
    cases hn : (strtok 32 line).1 with
    -- A line of blanks: `strcmp(NULL, name)`.
    -- The right name with nothing after it: the surname token is NULL.
    | none =>
      have hmatch : isMatch name surname line = false := by rw [isMatch, hn]; rfl
      rw [searchable_cons hmatch]
      exact iff_of_false (not_allOk (.strcmp none (some name)) (by simp) rfl)
        fun h => hnamed.mp h.1.1 hn
    | some n =>
      have hline : Named line := hnamed.mpr (by rw [hn]; exact Option.some_ne_none n)
      dsimp only
      by_cases hname : n = name
      · subst hname
        -- The entry is found, so that the later lines are not read.
        rw [if_pos rfl]
        cases hs : (strtok 44 (strtok 32 line).2).1 with
        | none =>
          have hmatch : isMatch n surname line = false := by
            rw [isMatch, hs]
            exact Bool.and_false _
          rw [searchable_cons hmatch]
          exact iff_of_false (not_allOk (.strcmp none (some surname)) (by simp) rfl)
            fun h => hsurname.mp (h.1.2 hn) hs
        | some sn =>
          have hafter : HasSurname line := hsurname.mpr (by rw [hs]; exact Option.some_ne_none sn)
          dsimp only
          by_cases hfound : sn = surname
          · subst hfound
            have hmatch : isMatch n sn line = true := by simp [isMatch, hn, hs]
            rw [if_pos rfl]
            refine iff_of_true ?_ (searchable_match hmatch lines)
            exact (allOk_cons _ _).mpr ⟨rfl, (allOk_singleton _).mpr rfl⟩
          · have hmatch : isMatch n surname line = false := by simp [isMatch, hs, hfound]
            rw [if_neg hfound, searchable_cons hmatch, ← ih, allOk_cons, allOk_cons]
            exact ⟨fun h => ⟨⟨hline, fun _ => hafter⟩, h.2.2⟩, fun h => ⟨rfl, rfl, h.2⟩⟩
      -- Another name: the surname is not looked at.
      · have hmatch : isMatch name surname line = false := by simp [isMatch, hn, hname]
        rw [if_neg hname, searchable_cons hmatch, ← ih, allOk_cons]
        exact ⟨fun h => ⟨⟨hline, fun hn' => absurd (Option.some.inj (hn.symm.trans hn')) hname⟩, h.2⟩,
          fun h => ⟨rfl, h.2⟩⟩

/-- `searchStudentGrade` needs two names and the name of a file that it can search, if it can open
it. -/
theorem searchStudentGrade_uses (h : words 32 buf = command :: args) :
    AllOk (searchStudentGrade fs buf).uses ↔ ∃ name surname file more,
      args = name :: surname :: file :: more ∧
        ∀ opened ∈ fs.open_ .rdonly (some file),
          Searchable name surname (records [] opened.1) := by
  unfold searchStudentGrade
  dsimp only
  rw [show (strtok 32 (strtok 32 buf).2).1 = _ from argument_eq h 0,
    show (strtok 32 (strtok 32 (strtok 32 buf).2).2).1 = _ from argument_eq h 1,
    show (strtok 32 (strtok 32 (strtok 32 (strtok 32 buf).2).2).2).1 = _ from argument_eq h 2]
  rcases args with _ | ⟨name, _ | ⟨surname, _ | ⟨file, more⟩⟩⟩
  · exact iff_of_false (not_allOk (.open_ none) (by simp [Files.open_]) rfl) (by simp)
  · exact iff_of_false (not_allOk (.open_ none) (by simp [Files.open_]) rfl) (by simp)
  · exact iff_of_false (not_allOk (.open_ none) (by simp [Files.open_]) rfl) (by simp)
  · simp only [List.getElem?_cons_succ, List.getElem?_cons_zero, List.cons.injEq, and_assoc,
      exists_and_left, exists_eq_left']
    cases fs.open_ .rdonly (some file) with
    | none => exact iff_of_true ((allOk_singleton _).mpr rfl) nofun
    | some opened =>
      have huses := searchLoop_uses name surname (records [] opened.1)
      simp only [Option.mem_some_iff, forall_eq']
      rw [← huses]
      rcases searchLoop (some name) (some surname) (records [] opened.1) with ⟨uses, search⟩
      have hall : AllOk (.open_ (some file) :: uses) ↔ AllOk uses :=
        (allOk_cons _ _).trans (and_iff_right rfl)
      cases search <;> exact hall

/-! ## §4. Sorting. -/

/-- Entry `k` of `lines` has a name. -/
def NamedAt (lines : List Bytes) (k : Nat) : Prop := Named (lines.getD k [])

theorem NamedAt.lt {lines : List Bytes} {k : Nat} (h : NamedAt lines k) : k < lines.length := by
  by_contra hk
  obtain ⟨b, hb, -⟩ := h
  rw [List.getD_eq_default _ _ (Nat.not_lt.mp hk)] at hb
  exact nomatch hb

/-- A swap of two entries with names leaves an entry with a name at each index that had one. -/
theorem namedAt_swap {lines : List Bytes} {i j : Nat} (hi : NamedAt lines i)
    (hj : NamedAt lines j) (k : Nat) :
    NamedAt ((lines.set i (lines.getD j [])).set j (lines.getD i [])) k ↔ NamedAt lines k := by
  have hilt := hi.lt
  have hjlt := hj.lt
  unfold NamedAt
  by_cases hkj : k = j
  · subst hkj
    rw [List.getD_eq_getElem?_getD, List.getElem?_set_self (by simpa using hjlt)]
    exact iff_of_true hi hj
  · rw [List.getD_eq_getElem?_getD, List.getElem?_set_ne (Ne.symm hkj)]
    by_cases hki : k = i
    · subst hki
      rw [List.getElem?_set_self hilt]
      exact iff_of_true hj hi
    · rw [List.getElem?_set_ne (Ne.symm hki), ← List.getD_eq_getElem?_getD]

/-- A step of the sort with two entries that have a name. -/
theorem compareSwap_named {lines : List Bytes} {i j : Nat} (hi : NamedAt lines i)
    (hj : NamedAt lines j) : ∃ use lines', compareSwap lines i j = (use, some lines')
      ∧ use.ok = true ∧ ∀ k, NamedAt lines' k ↔ NamedAt lines k := by
  obtain ⟨a, ha⟩ := Option.ne_none_iff_exists'.mp ((named_iff _).mp hi)
  obtain ⟨b, hb⟩ := Option.ne_none_iff_exists'.mp ((named_iff _).mp hj)
  unfold compareSwap
  dsimp only
  rw [ha, hb]
  refine ⟨_, _, rfl, rfl, fun k => ?_⟩
  by_cases hab : strcmpPos a b = true
  · rw [if_pos hab]
    exact namedAt_swap hi hj k
  · rw [if_neg hab]

/-- A step that meets an entry without a name. -/
theorem compareSwap_unnamed {lines : List Bytes} {i j : Nat}
    (h : ¬ (NamedAt lines i ∧ NamedAt lines j)) :
    ∃ use, compareSwap lines i j = (use, none) ∧ use.ok = false := by
  unfold NamedAt at h
  rw [named_iff, named_iff] at h
  unfold compareSwap
  dsimp only
  cases hi : (strtok 32 (lines.getD i [])).1 with
  | none => exact ⟨_, rfl, rfl⟩
  | some a =>
    cases hj : (strtok 32 (lines.getD j [])).1 with
    | none => exact ⟨_, rfl, rfl⟩
    | some b =>
      exact absurd ⟨hi ▸ Option.some_ne_none a, hj ▸ Option.some_ne_none b⟩ h

/-- The loops use no NULL token exactly when every entry that they compare has a name. -/
theorem sortLoop_uses (pairs : List (Nat × Nat)) (lines : List Bytes) :
    AllOk (sortLoop pairs lines).1
      ↔ ∀ p ∈ pairs, NamedAt lines p.1 ∧ NamedAt lines p.2 := by
  induction pairs generalizing lines with
  | nil => exact iff_of_true allOk_nil nofun
  | cons p pairs ih =>
    obtain ⟨i, j⟩ := p
    rw [List.forall_mem_cons, sortLoop]
    by_cases hnamed : NamedAt lines i ∧ NamedAt lines j
    -- The step may swap the two entries, but every index keeps a name, so the hypothesis for
    -- the new array speaks of the same indices as the goal.
    · obtain ⟨use, lines', heq, hok, hkept⟩ := compareSwap_named hnamed.1 hnamed.2
      have hrest := ih lines'
      simp only [hkept] at hrest
      rw [heq]
      dsimp only
      rw [allOk_cons, hrest, and_iff_right hok, and_iff_right hnamed]
    · obtain ⟨use, heq, hbad⟩ := compareSwap_unnamed hnamed
      rw [heq]
      refine iff_of_false (fun h => ?_) fun h => hnamed h.1
      rw [(allOk_singleton use).mp h] at hbad
      exact nomatch hbad

/-- The loops compare every pair of entries. -/
theorem mem_loopPairs (n i j : Nat) : (i, j) ∈ loopPairs n ↔ i < j ∧ j < n := by
  rw [loopPairs, List.mem_flatMap]
  constructor
  · rintro ⟨a, -, hmem⟩
    obtain ⟨b, hb, heq⟩ := List.mem_map.mp hmem
    obtain ⟨rfl, rfl⟩ := Prod.mk.inj heq
    obtain ⟨c, hc, rfl⟩ := List.mem_range'.mp hb
    omega
  · rintro ⟨hij, hj⟩
    refine ⟨i, List.mem_range.mpr (by omega), List.mem_map.mpr ⟨j, ?_, rfl⟩⟩
    exact List.mem_range'.mpr ⟨j - (i + 1), by omega, by omega⟩

/-- The lines fit into the array, and if there are two or more, every one has a name. -/
def Sortable (lines : List Bytes) : Prop :=
  lines.length ≤ 100 ∧ (2 ≤ lines.length → ∀ line ∈ lines, Named line)

theorem loopPairs_named (lines : List Bytes) :
    (∀ p ∈ loopPairs lines.length, NamedAt lines p.1 ∧ NamedAt lines p.2)
      ↔ (2 ≤ lines.length → ∀ line ∈ lines, Named line) := by
  constructor
  · intro h htwo line hline
    obtain ⟨k, hk, rfl⟩ := List.mem_iff_getElem.mp hline
    rw [← List.getD_eq_getElem _ [] hk]
    cases k with
    -- Every entry is in a pair with the first one.
    | zero => exact (h (0, 1) ((mem_loopPairs _ _ _).mpr (by omega))).1
    | succ k => exact (h (0, k + 1) ((mem_loopPairs _ _ _).mpr (by omega))).2
  · intro h p hp
    obtain ⟨hij, hj⟩ := (mem_loopPairs _ p.1 p.2).mp hp
    have hnamed : ∀ k < lines.length, NamedAt lines k := by
      intro k hk
      rw [NamedAt, List.getD_eq_getElem _ _ hk]
      exact h (by omega) _ (List.getElem_mem hk)
    exact ⟨hnamed p.1 (by omega), hnamed p.2 hj⟩

theorem stores_ok (n : Nat) : AllOk (stores n) ↔ n ≤ 100 := by
  constructor
  · intro h
    by_contra hn
    -- `students[100]` is the first index past the array.
    have hlast := h (.store 100) (List.mem_map.mpr ⟨100, List.mem_range.mpr (by omega), rfl⟩)
    exact nomatch hlast
  · intro hn u hu
    obtain ⟨k, hk, rfl⟩ := List.mem_map.mp hu
    have hk' := List.mem_range.mp hk
    exact decide_eq_true (by omega)

/-- `sortStudentGrades` needs the name of a file that it can sort, if it can open it. -/
theorem sortStudentGrades_uses (h : words 32 buf = command :: args) :
    AllOk (sortStudentGrades fs buf).uses ↔ ∃ file more, args = file :: more ∧
      ∀ opened ∈ fs.open_ .rdwr (some file), Sortable (records [] opened.1) := by
  unfold sortStudentGrades
  dsimp only
  rw [show (strtok 32 (strtok 32 buf).2).1 = _ from argument_eq h 0]
  rcases args with _ | ⟨file, more⟩
  · exact iff_of_false (not_allOk (.open_ none) (by simp [Files.open_]) rfl) (by simp)
  · simp only [List.getElem?_cons_zero, List.cons.injEq, and_assoc, exists_and_left,
      exists_eq_left']
    cases fs.open_ .rdwr (some file) with
    | none => exact iff_of_true ((allOk_singleton _).mpr rfl) nofun
    | some opened =>
      simp only [Option.mem_some_iff, forall_eq']
      generalize records [] opened.1 = lines
      have hstores : AllOk (.open_ (some file) :: stores lines.length) ↔ lines.length ≤ 100 := by
        rw [allOk_cons, stores_ok]
        exact and_iff_right rfl
      by_cases hlong : lines.length > 100
      · rw [if_pos hlong]
        exact iff_of_false (fun huses => absurd (hstores.mp huses) (by omega))
          fun hsortable => absurd hsortable.1 (by omega)
      · have huses := sortLoop_uses (loopPairs lines.length) lines
        rw [if_neg hlong, Sortable, ← loopPairs_named, ← huses, ← hstores, ← allOk_append]
        rcases sortLoop (loopPairs lines.length) lines with ⟨uses, _ | sorted⟩
        · exact Iff.rfl
        · exact Iff.rfl

/-! ## §5. One turn. -/

/-- The line that a turn reads. -/
def lineOf (s : State) : Bytes := cstr (readLine (MAX_LEN - 1) s.input).1

/-- What a command needs of its arguments, and of the file that they name.  Without arguments
nothing is used. -/
def Served (files : Files) (command : Bytes) (args : List Bytes) : Prop :=
  if command = text "addStudentGrade" then args = [] ∨ 4 ≤ args.length
  else if command = text "searchStudent" then
    args = [] ∨ ∃ name surname file more, args = name :: surname :: file :: more ∧
      ∀ opened ∈ files.open_ .rdonly (some file), Searchable name surname (records [] opened.1)
  else if command = text "sortAll" then
    args = [] ∨ ∃ file more, args = file :: more ∧
      ∀ opened ∈ files.open_ .rdwr (some file), Sortable (records [] opened.1)
  else if command = text "listSome" then args = [] ∨ 3 ≤ args.length
  else True

/-- The line has a command, and the command has what it needs. -/
def Meets (s : State) : Prop :=
  ∃ command args, words 32 (lineOf s) = command :: args ∧ Served s.files command args

/-- The other commands need nothing more. -/
theorem served_other (files : Files) (h : command ∉ [text "addStudentGrade", text "searchStudent",
    text "sortAll", text "listSome"]) : Served files command args := by
  simp only [List.mem_cons, List.not_mem_nil, or_false, not_or] at h
  rw [Served, if_neg h.1, if_neg h.2.1, if_neg h.2.2.1, if_neg h.2.2.2]
  trivial

theorem compared_ok (command : Bytes) (names : List Bytes) : AllOk (compared command names) := by
  induction names with
  | nil => exact allOk_nil
  | cons name names ih =>
    rw [compared, allOk_cons]
    refine ⟨rfl, ?_⟩
    by_cases hname : name = command
    · rw [if_pos hname]
      exact allOk_nil
    · rw [if_neg hname]
      exact ih

/-- Without an argument nothing is used. -/
theorem withArgument_uses {round : Round} {needs : Prop} (h : AllOk round.uses ↔ needs) :
    AllOk (withArgument args.head? round).uses ↔ args = [] ∨ needs := by
  cases args with
  | nil => exact iff_of_true allOk_nil (Or.inl rfl)
  | cons arg args => exact h.trans (or_iff_right (List.cons_ne_nil arg args)).symm

/-- A command that needs one argument has it. -/
theorem withArgument_ok {round : Round} (h : AllOk round.uses ↔ 1 ≤ args.length) :
    AllOk (withArgument args.head? round).uses := by
  rw [withArgument_uses h]
  cases args with
  | nil => exact Or.inl rfl
  | cons arg args => exact Or.inr (Nat.succ_pos _)

/-- A command uses no NULL token, and stores no line outside the array, exactly when it has what it
needs. -/
theorem dispatch_uses (s : State) (h : words 32 buf = command :: args) :
    AllOk (dispatch s buf command args.head?).uses ↔ Served s.files command args := by
  unfold dispatch
  dsimp only
  by_cases hcreate : command = text "gtuStudentGrades"
  · rw [if_pos hcreate]
    -- `createFile` runs only when there is an argument, which is all that it needs.
    refine iff_of_true ?_ ?_
    · cases args with
      | nil => exact allOk_nil
      | cons arg args => exact (createFile_uses s.files h).mpr (Nat.succ_pos _)
    · rw [hcreate]
      exact served_other s.files (by decide +kernel)
  rw [if_neg hcreate, Served]
  by_cases hadd : command = text "addStudentGrade"
  · rw [if_pos hadd, if_pos hadd]
    exact withArgument_uses (addStudentGrade_uses s.files h)
  rw [if_neg hadd, if_neg hadd]
  by_cases hsearch : command = text "searchStudent"
  · rw [if_pos hsearch, if_pos hsearch]
    exact withArgument_uses (searchStudentGrade_uses s.files h)
  rw [if_neg hsearch, if_neg hsearch]
  by_cases hsort : command = text "sortAll"
  · rw [if_pos hsort, if_pos hsort]
    exact withArgument_uses (sortStudentGrades_uses s.files h)
  rw [if_neg hsort, if_neg hsort]
  by_cases hsome : command = text "listSome"
  -- Without its numbers `listSome` ends the program, but what it has used is the same.
  · rw [if_pos hsome, if_neg (by rw [hsome]; decide +kernel),
      if_neg (by rw [hsome]; decide +kernel), if_pos hsome]
    refine withArgument_uses (Iff.trans ?_ (listSomeStudents_uses s.files h))
    rcases listSomeStudents s.files buf with ⟨r, _ | _⟩
    · exact Iff.rfl
    · exact Iff.rfl
  rw [if_neg hsome, if_neg hsome]
  refine iff_of_true ?_ trivial
  -- The commands left need nothing of the file.
  by_cases hshow : command = text "showAll"
  · rw [if_pos hshow]
    exact withArgument_ok ((showAllStudents_uses s.files h ..).trans (isSome_getElem?_iff 0))
  rw [if_neg hshow]
  by_cases hlist : command = text "listGrades"
  · rw [if_pos hlist]
    exact withArgument_ok ((showAllStudents_uses s.files h ..).trans (isSome_getElem?_iff 0))
  rw [if_neg hlist]
  exact allOk_nil

/-- One turn of `main` uses no NULL token, and stores no line outside the array, exactly when the
line has a command and the command has what it needs. -/
theorem round_ok_iff (s : State) : AllOk (main s).uses ↔ Meets s := by
  have hcommand := token_eq (lineOf s) 0
  have harg2 := token_eq (lineOf s) 1
  simp only [lineOf, skip] at hcommand harg2
  unfold main Meets lineOf
  dsimp only
  rw [hcommand, harg2]
  cases hwords : words 32 (cstr (readLine (MAX_LEN - 1) s.input).1) with
  -- The first comparison, with "q", is made before any test of the token.
  | nil => exact iff_of_false (not_allOk (.strcmp (some (text "q")) none) (by simp) rfl) (by simp)
  | cons command args =>
    simp only [List.getElem?_cons_zero, List.getElem?_cons_succ, List.cons.injEq, and_assoc,
      exists_and_left, exists_eq_left']
    by_cases hq : command = text "q"
    · rw [if_pos hq]
      refine iff_of_true (compared_ok command commands) ?_
      rw [hq]
      exact served_other s.files (by decide +kernel)
    · rw [if_neg hq, allOk_append, and_iff_right (compared_ok command commands),
        ← List.head?_eq_getElem?]
      exact dispatch_uses ⟨_, s.files⟩ hwords

/-! ## §6. Any number of turns. -/

/-- What is used in at most `n` turns. -/
def usesFor : Nat → State → List Use
  | 0, _ => []
  | n + 1, s =>
    (main s).uses ++ match (main s).next with
      | none => []
      | some s' => usesFor n s'

/-- Each of at most `n` turns finds a line and a file that meet what its command needs. -/
def MeetsFor : Nat → State → Prop
  | 0, _ => True
  | n + 1, s =>
    Meets s ∧ match (main s).next with
      | none => True
      | some s' => MeetsFor n s'

/-- The program uses no NULL token and stores no line outside the array exactly when every turn
meets what its command needs. -/
theorem session_ok_iff (n : Nat) (s : State) : AllOk (usesFor n s) ↔ MeetsFor n s := by
  induction n generalizing s with
  | zero => exact iff_true_intro allOk_nil
  | succ n ih =>
    rw [usesFor, MeetsFor, allOk_append, round_ok_iff]
    refine and_congr_right fun _ => ?_
    cases (main s).next with
    | none => exact iff_true_intro allOk_nil
    | some s' => exact ih s'

/-- An empty line: `strcmp("q", NULL)`. -/
theorem empty_line_null :
    ¬ ∀ n s, AllOk (usesFor n s) := by
  intro h
  have huses := h 1 ⟨[10], fun _ => none, fun _ _ => true⟩
  exact nomatch huses (.strcmp (some (text "q")) none) (List.mem_cons_self ..)

end SystemOS.Grades.Tokens
