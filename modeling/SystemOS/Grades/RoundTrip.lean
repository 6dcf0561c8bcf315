/-
  SystemOS.Grades.RoundTrip — searching for a student who has been added.

  `addStudentGrade` appends `name surname, grade`; `searchStudentGrade` takes a line apart at the
  first space, at the first comma behind it, and at the next space.  The two formats are inverse
  while no surname has a comma in it.

  Main results:
    * `read_core`      — what the search reads of a record.
    * `added_content`  — the file after a record has been added.
    * `roundTrip_iff`  — when the search prints the student who was added.
-/
import SystemOS.Grades.Readers
import SystemOS.Lib.Utf8

namespace SystemOS.Grades.RoundTrip

open SystemOS.Lib.Lines SystemOS.Lib.Buffers SystemOS.Lib.Strings SystemOS.Lib.Strtok
open SystemOS.Lib.Utf8
open SystemOS.Grades.Shell SystemOS.Grades.Tokens SystemOS.Grades.Readers

/-! ## §1. Records. -/

/-- A word of a command line. -/
structure Token where
  bytes : Bytes
  ne_nil : bytes ≠ []
  no_space : 32 ∉ bytes
  no_nul : 0 ∉ bytes
  no_newline : 10 ∉ bytes

structure Record where
  name : Token
  surname : Token
  grade : Token

/-- What stands behind the name: `surname, grade`. -/
def Record.tail (r : Record) : Bytes := r.surname.bytes ++ 44 :: 32 :: r.grade.bytes

/-- The line of a record. -/
def Record.line (r : Record) : Bytes := r.name.bytes ++ 32 :: r.tail

/-- What is left of the surname behind leading commas. -/
def Record.core (r : Record) : Bytes := r.surname.bytes.dropWhile (· == 44)

/-- The surname up to its first comma, which the search compares. -/
def Record.cut (r : Record) : Bytes := r.core.takeWhile (· != 44)

/-- What stands behind that comma, up to the next space. -/
def Record.behind (r : Record) : Bytes :=
  match r.core.dropWhile (· != 44) with
  | [] => r.grade.bytes
  | _ :: rest => rest ++ [44]

theorem strtok_name (r : Record) : strtok 32 r.line = (some r.name.bytes, r.tail) :=
  strtok_token r.name.ne_nil r.name.no_space

/-- Leading commas are skipped. -/
theorem strtok_core (r : Record) (hcore : r.core ≠ []) :
    strtok 44 r.tail = strtok 44 (r.core ++ 44 :: 32 :: r.grade.bytes) := by
  have hne : ¬ (r.surname.bytes.dropWhile (· == 44)).isEmpty = true := by
    rw [List.isEmpty_iff]
    exact hcore
  have htail : r.tail.dropWhile (· == 44) = r.core ++ 44 :: 32 :: r.grade.bytes := by
    unfold Record.tail Record.core
    rw [List.dropWhile_append, if_neg hne]
  rw [← strtok_dropWhile, htail]

/-- What is left of the surname does not begin with a comma. -/
theorem core_ne_cons (r : Record) (rest : Bytes) : r.core ≠ 44 :: rest := by
  intro heq
  have hhead := List.head?_dropWhile_not (· == (44 : UInt8)) r.surname.bytes
  rw [show r.surname.bytes.dropWhile (· == 44) = 44 :: rest from heq] at hhead
  simp at hhead

theorem cut_of_no_comma {r : Record} (h : 44 ∉ r.core) :
    r.cut = r.core ∧ r.behind = r.grade.bytes := by
  have hall := ne_delimiter h
  refine ⟨List.takeWhile_eq_self_iff.mpr hall, ?_⟩
  unfold Record.behind
  rw [List.dropWhile_eq_nil_iff.mpr hall]

theorem cut_at_comma {r : Record} {a rest : Bytes} (hsplit : r.core = a ++ 44 :: rest)
    (ha : 44 ∉ a) : r.cut = a ∧ r.behind = rest ++ [44] := by
  obtain ⟨hfront, hbehind⟩ := @front_token 44 a rest ha
  unfold Record.cut Record.behind
  rw [hsplit, hfront, hbehind]
  exact ⟨rfl, rfl⟩

/-- **What the search reads of a record** whose surname is more than commas. -/
theorem read_core (r : Record) (hcore : r.core ≠ []) :
    (strtok 44 r.tail).1 = some r.cut
      ∧ (strtok 32 (strtok 44 r.tail).2).1 = some r.behind := by
  rw [strtok_core r hcore]
  by_cases hcomma : 44 ∈ r.core
  · -- the surname is cut at the comma, and the grade begins behind it
    obtain ⟨a, rest, hsplit, ha⟩ := List.eq_append_cons_of_mem hcomma
    obtain ⟨hcut, hbehind⟩ := cut_at_comma hsplit ha
    have hne : a ≠ [] := by
      rintro rfl
      exact core_ne_cons r rest hsplit
    have hspace : 32 ∉ rest ++ [44] := by
      intro hmem
      have hrest : 32 ∈ rest := by simpa using hmem
      have hcore : 32 ∈ r.core := by
        rw [hsplit]
        exact List.mem_append_right _ (List.mem_cons_of_mem _ hrest)
      exact r.surname.no_space ((List.dropWhile_sublist _).mem hcore)
    have hgrade : rest ++ 44 :: 32 :: r.grade.bytes = (rest ++ [44]) ++ 32 :: r.grade.bytes := by
      simp
    rw [hcut, hbehind, hsplit, List.append_assoc, List.cons_append, strtok_token hne ha]
    refine ⟨rfl, ?_⟩
    show (strtok 32 (rest ++ 44 :: 32 :: r.grade.bytes)).1 = _
    rw [hgrade, strtok_token (by simp) hspace]
  · obtain ⟨hcut, hbehind⟩ := cut_of_no_comma hcomma
    rw [hcut, hbehind, strtok_token hcore hcomma]
    refine ⟨rfl, ?_⟩
    show (strtok 32 (32 :: r.grade.bytes)).1 = _
    rw [strtok_delimiter]
    exact strtok_last r.grade.ne_nil r.grade.no_space

/-- Of a surname that is only commas the space behind it is read. -/
theorem read_commas (r : Record) (hcore : r.core = []) :
    ∃ s, (strtok 44 r.tail).1 = some s ∧ 32 ∈ s := by
  have hnil : (r.surname.bytes.dropWhile (· == 44)).isEmpty = true := List.isEmpty_iff.mpr hcore
  have htail : r.tail.dropWhile (· == 44) = 32 :: r.grade.bytes := by
    unfold Record.tail
    rw [List.dropWhile_append, if_pos hnil]
    rfl
  refine ⟨32 :: r.grade.bytes.takeWhile (· != 44), ?_, List.mem_cons_self⟩
  unfold strtok
  rw [htail]

/-! ## §2. The search. -/

section

variable (name surname : Token)

/-- The record is taken for the one that is looked for. -/
def Record.taken (r : Record) : Bool := r.name.bytes = name.bytes ∧ r.cut = surname.bytes

/-- A surname without a comma is not cut. -/
theorem taken_of_no_comma {new : Record} (h : 44 ∉ new.surname.bytes) :
    new.taken new.name new.surname = true ∧ new.behind = new.grade.bytes := by
  obtain ⟨c, cs, hcs⟩ := List.exists_cons_of_ne_nil new.surname.ne_nil
  have hcore : new.core = new.surname.bytes := by
    unfold Record.core
    rw [hcs] at h ⊢
    rw [List.mem_cons, not_or] at h
    exact List.dropWhile_cons_of_neg (by simpa using Ne.symm h.1)
  rw [← hcore] at h
  obtain ⟨hcut, hbehind⟩ := cut_of_no_comma h
  exact ⟨decide_eq_true ⟨rfl, hcut.trans hcore⟩, hbehind⟩

/-- **What the search makes of a record**: it stops there if it takes it. -/
theorem search_record (r : Record) (lines : List Bytes) :
    (searchLoop (some name.bytes) (some surname.bytes) (r.line :: lines)).2
      = if r.taken name surname then .found name.bytes surname.bytes (some r.behind)
        else (searchLoop (some name.bytes) (some surname.bytes) lines).2 := by
  have htaken : r.taken name surname = true ↔
      r.name.bytes = name.bytes ∧ r.cut = surname.bytes := decide_eq_true_iff
  rw [searchLoop]
  simp only [strtok_name]
  by_cases hcore : r.core = []
  · obtain ⟨s, hs, hspace⟩ := read_commas r hcore
    have hcut : r.cut = [] := by
      unfold Record.cut
      rw [hcore]
      rfl
    have hsurname : s ≠ surname.bytes := by
      rintro rfl
      exact surname.no_space hspace
    rw [if_neg fun h => surname.ne_nil ((htaken.mp h).2.symm.trans hcut)]
    simp only [hs, if_neg hsurname]
    split <;> rfl
  · obtain ⟨hs, hgrade⟩ := read_core r hcore
    simp only [hs, hgrade]
    by_cases hname : r.name.bytes = name.bytes
    · rw [if_pos hname]
      by_cases hsurname : r.cut = surname.bytes
      · rw [if_pos hsurname, if_pos (htaken.mpr ⟨hname, hsurname⟩), hname, hsurname]
      · rw [if_neg hsurname, if_neg fun h => hsurname (htaken.mp h).2]
    · rw [if_neg hname, if_neg fun h => hname (htaken.mp h).1]

/-- The first record that is taken is found. -/
theorem search_records (rs : List Record) (lines : List Bytes) :
    (searchLoop (some name.bytes) (some surname.bytes) (rs.map Record.line ++ lines)).2
      = match rs.find? (·.taken name surname) with
        | some r => .found name.bytes surname.bytes (some r.behind)
        | none => (searchLoop (some name.bytes) (some surname.bytes) lines).2 := by
  induction rs with
  | nil => rfl
  | cons r rs ih =>
    rw [List.map_cons, List.cons_append, search_record, ih, List.find?_cons]
    cases r.taken name surname <;> rfl

/-- Nobody is found whose surname has a comma. -/
theorem found_no_comma {name surname name' surname' : Bytes}
    {grade : Option Bytes} {lines : List Bytes}
    (h : (searchLoop (some name) (some surname) lines).2 = .found name' surname' grade) :
    44 ∉ surname' := by
  induction lines with
  | nil => cases h
  | cons line lines ih =>
    rw [searchLoop] at h
    cases hn : (strtok 32 line).1 with
    | none => simp only [hn] at h; cases h
    | some n =>
      simp only [hn] at h
      by_cases hname : n = name
      · rw [if_pos hname] at h
        cases hs : (strtok 44 (strtok 32 line).2).1 with
        | none => simp only [hs] at h; cases h
        | some s =>
          simp only [hs] at h
          by_cases hsurname : s = surname
          · rw [if_pos hsurname] at h
            cases h
            exact not_mem_token hs
          · rw [if_neg hsurname] at h
            exact ih h
      · rw [if_neg hname] at h
        exact ih h

end

/-! ## §3. The file. -/

/-- Opening a file changes no other, and none that was there. -/
theorem open_kept {fs fs' : Files} {flags : Flags} {path : Option Bytes} {before : Bytes}
    (hopen : fs.open_ flags path = some (before, fs')) : fs'.permitted = fs.permitted
      ∧ ∀ file bytes, fs.content file = some bytes → fs'.content file = some bytes := by
  cases path with
  | none => cases hopen
  | some path =>
    simp only [Files.open_] at hopen
    split at hopen
    · split at hopen
      · cases hopen
        exact ⟨rfl, fun _ _ h => h⟩
      · next hnone =>
        split at hopen
        · cases hopen
          refine ⟨rfl, fun file bytes h => ?_⟩
          have hother : file ≠ path := by
            rintro rfl
            rw [h] at hnone
            cases hnone
          exact (Function.update_of_ne hother _ _).trans h
        · cases hopen
    · cases hopen

/-- The log grows, and what is in the other files stays. -/
theorem saveToLog_content {fs : Files} {file bytes : Bytes} (h : fs.content file = some bytes)
    (event : Bytes) : ∃ t, (saveToLog fs event).1.content file = some (bytes ++ t) := by
  unfold saveToLog
  cases hopen : fs.open_ .wronlyCreatAppend (some (text "log.log")) with
  | none => exact ⟨[], by rw [List.append_nil]; exact h⟩
  | some opened =>
    obtain ⟨before, fs'⟩ := opened
    have hkept := (open_kept hopen).2 file bytes h
    show ∃ t, Function.update fs'.content _ _ file = some (bytes ++ t)
    by_cases hlog : file = text "log.log"
    · subst hlog
      refine ⟨event, ?_⟩
      rw [Function.update_self, hkept]
      rfl
    · exact ⟨[], by rw [Function.update_of_ne hlog, List.append_nil]; exact hkept⟩

theorem saveToLog_permitted (fs : Files) (event : Bytes) :
    (saveToLog fs event).1.permitted = fs.permitted := by
  unfold saveToLog
  cases hopen : fs.open_ .wronlyCreatAppend (some (text "log.log")) with
  | none => rfl
  | some opened => exact (open_kept hopen).1

/-- `addStudentGrade name surname grade file`, a line that fits into the buffer of `main`. -/
structure Adds (buf : Bytes) (new : Record) (file : Bytes) : Prop where
  words_eq : ∃ more, words 32 buf = text "addStudentGrade" :: new.name.bytes :: new.surname.bytes
    :: new.grade.bytes :: file :: more
  fits : buf.length ≤ MAX_LEN - 1

/-- The line that is written is not cut. -/
theorem Adds.line_length {buf file : Bytes} {new : Record} (h : Adds buf new file) :
    new.line.length + 1 ≤ MAX_LEN - 1 := by
  obtain ⟨more, hwords⟩ := h.words_eq
  have hlength := words_length 32 buf
  have hfits := h.fits
  have hcommand : (text "addStudentGrade").length = 15 := utf8_length "addStudentGrade"
  rw [hwords] at hlength
  simp only [List.flatten_cons, List.length_append, hcommand] at hlength
  unfold MAX_LEN at hfits ⊢
  unfold Record.line Record.tail
  simp only [List.length_append, List.length_cons]
  omega

/-- What `snprintf` makes of the three tokens. -/
theorem line_eq (r : Record) : r.name.bytes ++ text " " ++ r.surname.bytes ++ text ", "
    ++ r.grade.bytes ++ text "\n" = r.line ++ [10] := by
  have hspace : text " " = [32] := @utf8_ofList [' '] (by simp [Char.utf8Size])
  have hcomma : text ", " = [44, 32] := @utf8_ofList [',', ' '] (by simp [Char.utf8Size])
  have hnewline : text "\n" = [10] := @utf8_ofList ['\n'] (by simp [Char.utf8Size])
  rw [hspace, hcomma, hnewline]
  unfold Record.line Record.tail
  simp

/-- **The file after a record has been added.** -/
theorem added_content {fs : Files} {buf file bytes : Bytes} {new : Record} (h : Adds buf new file)
    (hfile : Openable fs .wronlyAppend file bytes) :
    (∃ t, (addStudentGrade fs buf).files.content file = some (bytes ++ (new.line ++ 10 :: t)))
      ∧ (addStudentGrade fs buf).files.permitted = fs.permitted := by
  have hlength := h.line_length
  obtain ⟨more, hwords⟩ := h.words_eq
  have hname : (strtok 32 (strtok 32 buf).2).1 = some new.name.bytes := argument_eq hwords 0
  have hsurname : (strtok 32 (strtok 32 (strtok 32 buf).2).2).1 = some new.surname.bytes :=
    argument_eq hwords 1
  have hgrade : (strtok 32 (strtok 32 (strtok 32 (strtok 32 buf).2).2).2).1
      = some new.grade.bytes := argument_eq hwords 2
  have harg : (strtok 32 (strtok 32 (strtok 32 (strtok 32 (strtok 32 buf).2).2).2).2).1
      = some file := argument_eq hwords 3
  have hbuffer : (new.line ++ [10]).take (MAX_LEN - 1) = new.line ++ [10] := by
    refine List.take_of_length_le ?_
    rw [List.length_append]
    exact hlength
  have hfiles : (addStudentGrade fs buf).files = (saveToLog (fs.append file (new.line ++ [10]))
      (text "- Child process completed adding student grade\n")).1 := by
    unfold addStudentGrade
    simp only
    rw [hname, hsurname, hgrade, harg, hfile.open_eq]
    simp only [Option.getD_some]
    rw [line_eq, hbuffer]
    rfl
  have happend : (fs.append file (new.line ++ [10])).content file
      = some (bytes ++ (new.line ++ [10])) := by
    show Function.update fs.content file _ file = _
    rw [Function.update_self, hfile.content_eq]
    rfl
  rw [hfiles]
  refine ⟨?_, saveToLog_permitted _ _⟩
  obtain ⟨t, ht⟩ := saveToLog_content happend
    (text "- Child process completed adding student grade\n")
  refine ⟨t, ht.trans ?_⟩
  simp

/-! ## §4. The round trip. -/

theorem Record.not_mem_line (r : Record) : 0 ∉ r.line ∧ 10 ∉ r.line := by
  unfold Record.line Record.tail
  constructor
  · simp [r.name.no_nul, r.surname.no_nul, r.grade.no_nul]
  · simp [r.name.no_newline, r.surname.no_newline, r.grade.no_newline]

/-- The event that the search writes to the log. -/
def searched : Bytes := text "- Child process completed searching student grade\n"

/-- `addStudentGrade name surname grade file` and `searchStudent name surname file`, where the file
    is made of the records `rs`. -/
structure Session (fs : Files) (bufAdd bufSearch file : Bytes) (rs : List Record) (new : Record) :
    Prop where
  adds : Adds bufAdd new file
  searches : ∃ command more,
    words 32 bufSearch = command :: new.name.bytes :: new.surname.bytes :: file :: more
  writable : Openable fs .wronlyAppend file (unlines (rs.map Record.line))
  readable : fs.permitted .rdonly file = true
  short : ∀ r ∈ rs, r.line.length ≤ 49

/-- The search prints the student who was added, and nothing else but what ends it. -/
def SearchPrints (fs : Files) (bufAdd bufSearch : Bytes) (new : Record) : Prop :=
  (searchStudentGrade (addStudentGrade fs bufAdd).files bufSearch).stdout
    = .record (some new.name.bytes) (some new.surname.bytes) (some new.grade.bytes)
      :: ending (addStudentGrade fs bufAdd).files searched

section

variable {fs : Files} {bufAdd bufSearch file : Bytes} {rs : List Record} {new : Record}

/-- What the search prints. -/
def printed (fs : Files) : Search → List Output
  | .found name surname grade => .record (some name) (some surname) grade :: ending fs searched
  | .notFound => .text (text "Student not found in the file.\n") :: ending fs searched
  | .killed => []

/-- **What the search prints behind the command that adds**: it looks through the records, then at
    the new one. -/
theorem search_stdout (h : Session fs bufAdd bufSearch file rs new) : ∃ lines,
    (searchStudentGrade (addStudentGrade fs bufAdd).files bufSearch).stdout
      = printed (addStudentGrade fs bufAdd).files (searchLoop (some new.name.bytes)
        (some new.surname.bytes) ((rs ++ [new]).map Record.line ++ lines)).2 := by
  obtain ⟨⟨t, hcontent⟩, hpermitted⟩ := added_content h.adds h.writable
  obtain ⟨command, more, hwords⟩ := h.searches
  have hname : (strtok 32 (strtok 32 bufSearch).2).1 = some new.name.bytes :=
    argument_eq hwords 0
  have hsurname : (strtok 32 (strtok 32 (strtok 32 bufSearch).2).2).1
      = some new.surname.bytes := argument_eq hwords 1
  have harg : (strtok 32 (strtok 32 (strtok 32 (strtok 32 bufSearch).2).2).2).1 = some file :=
    argument_eq hwords 2
  have hopen : Openable (addStudentGrade fs bufAdd).files .rdonly file _ :=
    ⟨hcontent, by rw [hpermitted]; exact h.readable⟩
  have hfits : ∀ l ∈ (rs ++ [new]).map Record.line, 10 ∉ l ∧ l.length ≤ 49 := fun l hl => by
    obtain ⟨r, hr, rfl⟩ := List.mem_map.mp hl
    refine ⟨r.not_mem_line.2, ?_⟩
    rcases List.mem_append.mp hr with hr | hr
    · exact h.short r hr
    · rw [List.mem_singleton.mp hr]
      have hlength := h.adds.line_length
      unfold MAX_LEN at hlength
      omega
  have hlines : unlines (rs.map Record.line) ++ (new.line ++ 10 :: t)
      = unlines ((rs ++ [new]).map Record.line) ++ t := by
    rw [List.map_append, unlines_append]
    show _ = _ ++ unlines [new.line] ++ t
    rw [unlines_cons]
    simp [unlines]
  have hcstr : ((rs ++ [new]).map Record.line).map cstr = (rs ++ [new]).map Record.line := by
    rw [List.map_map]
    exact List.map_congr_left fun r _ => cstr_of_no_nul r.not_mem_line.1
  refine ⟨records [] t, ?_⟩
  unfold searchStudentGrade
  simp only
  rw [hname, hsurname, harg, hopen.open_eq]
  simp only
  rw [hlines, records_unlines hfits, hcstr]
  rcases searchLoop (some new.name.bytes) (some new.surname.bytes)
    ((rs ++ [new]).map Record.line ++ records [] t) with ⟨uses, search⟩
  cases search <;> rfl

/-- A surname with a comma in it is not found: no token up to a comma is such a surname. -/
theorem comma_lost (h : Session fs bufAdd bufSearch file rs new)
    (hcomma : 44 ∈ new.surname.bytes) : ¬ SearchPrints fs bufAdd bufSearch new := by
  obtain ⟨lines, hstdout⟩ := search_stdout h
  unfold SearchPrints
  rw [hstdout]
  intro hprinted
  cases hfound : (searchLoop (some new.name.bytes) (some new.surname.bytes)
      ((rs ++ [new]).map Record.line ++ lines)).2 with
  | notFound =>
    rw [hfound] at hprinted
    cases hprinted
  | killed =>
    rw [hfound] at hprinted
    cases hprinted
  | found name' surname' grade =>
    rw [hfound] at hprinted
    obtain ⟨-, hsurname, -⟩ := Output.record.inj (List.cons.inj hprinted).1
    exact found_no_comma hfound (Option.some.inj hsurname ▸ hcomma)

/-- **The search prints the student who was added** exactly when the surname has no comma in it, and
    the first earlier record that is taken for the new one, if there is any, has the same grade. -/
theorem roundTrip_iff (h : Session fs bufAdd bufSearch file rs new) :
    SearchPrints fs bufAdd bufSearch new ↔ 44 ∉ new.surname.bytes
      ∧ ∀ r, rs.find? (·.taken new.name new.surname) = some r → r.behind = new.grade.bytes := by
  by_cases hcomma : 44 ∈ new.surname.bytes
  · exact iff_of_false (comma_lost h hcomma) fun hboth => hboth.1 hcomma
  · obtain ⟨lines, hstdout⟩ := search_stdout h
    obtain ⟨htaken, hbehind⟩ := taken_of_no_comma hcomma
    unfold SearchPrints
    rw [hstdout, and_iff_right hcomma, search_records, List.find?_append]
    cases hearlier : rs.find? (·.taken new.name new.surname) with
    | some r =>
      show Output.record _ _ (some r.behind) :: _ = _ ↔ _
      rw [List.cons.injEq, eq_self, and_true, Output.record.injEq, eq_self, eq_self, true_and,
        true_and, Option.some.injEq]
      constructor
      · rintro hgrade r' hr'
        rw [← Option.some.inj hr']
        exact hgrade
      · exact fun hgrade => hgrade r rfl
    | none =>
      -- the new record is the first that is taken
      have hnew : [new].find? (·.taken new.name new.surname) = some new := by
        rw [List.find?_cons, htaken]
      rw [hnew]
      refine iff_of_true ?_ nofun
      show Output.record _ _ (some new.behind) :: _ = _
      rw [hbehind]

end

/-! ## §5. Two students. -/

theorem addStudentGrade_bytes : text "addStudentGrade"
    = [97, 100, 100, 83, 116, 117, 100, 101, 110, 116, 71, 114, 97, 100, 101] :=
  @utf8_ofList ['a', 'd', 'd', 'S', 't', 'u', 'd', 'e', 'n', 't', 'G', 'r', 'a', 'd', 'e']
    (by simp [Char.utf8Size])

def token (b : UInt8) (hspace : b ≠ 32) (hnul : b ≠ 0) (hnewline : b ≠ 10) : Token :=
  ⟨[b], by simp, by simpa using Ne.symm hspace, by simpa using Ne.symm hnul,
    by simpa using Ne.symm hnewline⟩

/-- The student `A B` with the grade `D`. -/
def plain : Record :=
  ⟨token 65 (by decide) (by decide) (by decide), token 66 (by decide) (by decide) (by decide),
    token 68 (by decide) (by decide) (by decide)⟩

/-- The student `A B,C` with the grade `D`. -/
def comma : Record :=
  { plain with surname := ⟨[66, 44, 67], by decide, by decide, by decide, by decide⟩ }

/-- The empty file `g`. -/
def noStudents : Files := ⟨fun _ => some [], fun _ _ => true⟩

/-- `addStudentGrade A B D g`. -/
def addPlain : Bytes := [97, 100, 100, 83, 116, 117, 100, 101, 110, 116, 71, 114, 97, 100, 101, 32,
  65, 32, 66, 32, 68, 32, 103]

/-- `searchStudent A B g`. -/
def searchPlain : Bytes := [115, 101, 97, 114, 99, 104, 83, 116, 117, 100, 101, 110, 116, 32, 65,
  32, 66, 32, 103]

/-- `addStudentGrade A B,C D g`. -/
def addComma : Bytes := [97, 100, 100, 83, 116, 117, 100, 101, 110, 116, 71, 114, 97, 100, 101, 32,
  65, 32, 66, 44, 67, 32, 68, 32, 103]

/-- `searchStudent A B,C g`. -/
def searchComma : Bytes := [115, 101, 97, 114, 99, 104, 83, 116, 117, 100, 101, 110, 116, 32, 65,
  32, 66, 44, 67, 32, 103]

/-- The student `E F` with the grade `G`. -/
def other : Record :=
  ⟨token 69 (by decide) (by decide) (by decide), token 70 (by decide) (by decide) (by decide),
    token 71 (by decide) (by decide) (by decide)⟩

/-- The file `g` with the other student. -/
def otherStudent : Files := ⟨fun _ => some [69, 32, 70, 44, 32, 71, 10], fun _ _ => true⟩

theorem plain_session : Session otherStudent addPlain searchPlain [103] [other] plain where
  adds := by
    refine ⟨⟨[], ?_⟩, by decide⟩
    rw [addStudentGrade_bytes]
    rfl
  searches := ⟨_, _, rfl⟩
  writable := ⟨rfl, rfl⟩
  readable := rfl
  short := by
    intro r hr
    rw [List.mem_singleton.mp hr]
    decide

theorem comma_session : Session noStudents addComma searchComma [103] [] comma where
  adds := by
    refine ⟨⟨[], ?_⟩, by decide⟩
    rw [addStudentGrade_bytes]
    rfl
  searches := ⟨_, _, rfl⟩
  writable := ⟨rfl, rfl⟩
  readable := rfl
  short := nofun

/-- The search goes past the other student and finds the one whose surname has no comma. -/
theorem roundTrip_plain : SearchPrints otherStudent addPlain searchPlain plain := by
  refine (roundTrip_iff plain_session).mpr ⟨by decide, fun r hr => ?_⟩
  have hnone : [other].find? (·.taken plain.name plain.surname) = none := by decide
  rw [hnone] at hr
  cases hr

/-- The search does not find `A B,C`, who is the only student in the file. -/
theorem comma_not_found : ¬ ∀ (fs : Files) (bufAdd bufSearch file : Bytes) (rs : List Record)
    (new : Record), Session fs bufAdd bufSearch file rs new →
      (∀ r ∈ rs, r.name.bytes = new.name.bytes → r.surname.bytes ≠ new.surname.bytes) →
      SearchPrints fs bufAdd bufSearch new := by
  intro hclaim
  have hcomma : 44 ∈ comma.surname.bytes := by decide
  exact comma_lost comma_session hcomma (hclaim _ _ _ _ _ _ comma_session nofun)

end SystemOS.Grades.RoundTrip
