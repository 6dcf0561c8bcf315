/-
  SystemOS.FileServer.Editing — the file after a write, and what a request for one line reads.

  The writer copies the pieces of the file into a temporary file and puts the new text in the place
  of one of them, or behind all of them.

  Main results:
    * `newFile_replace`, `newFile_append` — the file written.
    * `after_write`    — the files of the server after the request.
    * `appended_line`  — what a request for one line appends.
-/
import SystemOS.Lib.Pieces
import SystemOS.FileServer.Handler

namespace SystemOS.FileServer.Editing

open SystemOS.Lib.Lines SystemOS.Lib.Buffers
open SystemOS.FileServer.FileRequests (editLines tempFile newFile writeMessage)
open SystemOS.FileServer.Handler

/-! ## §1. Copying pieces. -/

/-- The pieces as `fprintf("%s")` writes them. -/
def kept (ls : List Bytes) : Bytes := (ls.map cstr).flatten

variable {ls : List Bytes} {file s : Bytes} {i k : Nat} {lineNum : Int}

theorem cstr_no_nul (b : Bytes) : 0 ∉ cstr b := by
  intro hmem
  simpa using List.mem_takeWhile_imp hmem

theorem kept_no_nul (ls : List Bytes) : 0 ∉ kept ls := by
  intro hmem
  obtain ⟨l, hl, h0⟩ := List.mem_flatten.mp hmem
  obtain ⟨line, -, rfl⟩ := List.mem_map.mp hl
  exact cstr_no_nul line h0

theorem kept_of_no_nul (h : ∀ l ∈ ls, 0 ∉ l) : kept ls = ls.flatten := by
  unfold kept
  rw [List.map_congr_left fun l hl => cstr_of_no_nul (h l hl), List.map_id']

/-- The bytes of a piece are bytes of the file. -/
theorem piece_no_nul {n : Nat} (h : 0 ∉ file) : ∀ line ∈ lines (n + 1) file, 0 ∉ line := by
  intro line hline h0
  rw [← lines_flatten n file] at h
  exact h (List.mem_flatten.mpr ⟨line, hline, h0⟩)

/-- A file without NUL is copied as it is. -/
theorem kept_lines (n : Nat) (h : 0 ∉ file) : kept (lines (n + 1) file) = file := by
  rw [kept_of_no_nul (piece_no_nul h), lines_flatten]

/-! ## §2. The loop over the pieces. -/

theorem editLines_none (s : Bytes) (h : ∀ i < ls.length, ((k + i + 1 : Nat) : Int) ≠ lineNum) :
    editLines lineNum s k ls = (kept ls, false, k + ls.length) := by
  induction ls generalizing k with
  | nil => rfl
  | cons line ls ih =>
    have hfirst : ((k + 1 : Nat) : Int) ≠ lineNum := h 0 (Nat.succ_pos _)
    have hrest : editLines lineNum s (k + 1) ls = (kept ls, false, k + 1 + ls.length) := by
      refine ih fun i hi => ?_
      have := h (i + 1) (Nat.succ_lt_succ hi)
      rwa [show k + (i + 1) + 1 = k + 1 + i + 1 by omega] at this
    rw [editLines, hrest]
    simp only [if_neg hfirst, List.length_cons]
    rw [show k + 1 + ls.length = k + (ls.length + 1) by omega]
    rfl

theorem editLines_at (s : Bytes) (hi : i < ls.length) :
    editLines ((k + i + 1 : Nat) : Int) s k ls
      = (kept (ls.take i) ++ (s ++ [10]) ++ kept (ls.drop (i + 1)), true, k + ls.length) := by
  induction ls generalizing k i with
  | nil => cases hi
  | cons line ls ih =>
    cases i with
    | zero =>
      -- the number occurs no second time
      have hrest : editLines ((k + 0 + 1 : Nat) : Int) s (k + 1) ls
          = (kept ls, false, k + 1 + ls.length) := editLines_none s fun i _ => by omega
      rw [editLines, hrest]
      simp only [Nat.add_zero, if_true, List.length_cons]
      rw [show k + 1 + ls.length = k + (ls.length + 1) by omega]
      rfl
    | succ i =>
      have hrest := ih (k := k + 1) (i := i) (Nat.lt_of_succ_lt_succ hi)
      rw [show k + 1 + i + 1 = k + (i + 1) + 1 by omega] at hrest
      rw [editLines, hrest]
      simp only [List.length_cons]
      rw [if_neg (by omega), show k + 1 + ls.length = k + (ls.length + 1) by omega]
      simp [kept]

/-- **The new text behind the file.** -/
theorem newFile_append (hs : 0 ∉ s) (hn : lineNum ≤ 0 ∨ ((lines 255 file).length : Int) < lineNum) :
    newFile lineNum s file = kept (lines 255 file) ++ (s ++ [10]) := by
  have hedit : editLines lineNum s 0 (lines 255 file)
      = (kept (lines 255 file), false, 0 + (lines 255 file).length) :=
    editLines_none s fun i hi => by omega
  have htemp : tempFile lineNum s file = kept (lines 255 file) ++ (s ++ [10]) := by
    unfold tempFile
    rw [hedit]
    simp only
    rw [if_pos (by omega), List.append_assoc]
  unfold newFile
  rw [htemp]
  refine kept_lines 254 ?_
  simp only [List.mem_append, not_or]
  exact ⟨kept_no_nul _, hs, by decide⟩

/-- **The new text in the place of a piece.** -/
theorem newFile_replace (file : Bytes) (hs : 0 ∉ s) (hi : i < (lines 255 file).length) :
    newFile ((i + 1 : Nat) : Int) s file
      = kept ((lines 255 file).take i) ++ (s ++ [10]) ++ kept ((lines 255 file).drop (i + 1)) := by
  have hedit := editLines_at (k := 0) s hi
  rw [Nat.zero_add] at hedit
  have htemp : tempFile ((i + 1 : Nat) : Int) s file
      = kept ((lines 255 file).take i) ++ (s ++ [10]) ++ kept ((lines 255 file).drop (i + 1)) := by
    unfold tempFile
    rw [hedit]
    simp only
    rw [if_neg (by omega)]
  unfold newFile
  rw [htemp]
  refine kept_lines 254 ?_
  simp only [List.mem_append, not_or]
  exact ⟨⟨kept_no_nul _, hs, by decide⟩, kept_no_nul _⟩

/-- In a file without NUL the other pieces stay as they are. -/
theorem newFile_pieces (hfile : 0 ∉ file) (hs : 0 ∉ s) (hi : i < (lines 255 file).length) :
    newFile ((i + 1 : Nat) : Int) s file
      = ((lines 255 file).take i).flatten ++ (s ++ [10])
        ++ ((lines 255 file).drop (i + 1)).flatten := by
  have hpiece := piece_no_nul (n := 254) hfile
  rw [newFile_replace file hs hi,
    kept_of_no_nul fun line hline => hpiece line (List.mem_of_mem_take hline),
    kept_of_no_nul fun line hline => hpiece line (List.mem_of_mem_drop hline)]

/-! ## §3. The files of the server. -/

/-- The system after a request: the files written are the ones read from then on. -/
def after (w : World) (r : Reply) : World :=
  { w with fopenRead := fun path => (r.written.lookup path).or (w.fopenRead path) }

/-- The pieces of the file can be counted in `line_count`, an `int`. -/
def Counted (w : World) (path : Bytes) : Prop :=
  ∀ file, w.fopenRead path = some file → (lines 255 file).length < 2 ^ 31

variable {w : World} {path : Bytes}

theorem write_written (message : Bytes) (lineNum : Int) (s : Bytes)
    (hfile : w.fopenRead path = some file) (hlock : w.flock path = true)
    (hopen : w.fopenWrite path = true) :
    (write_server_file w message path lineNum s).written = [(path, newFile lineNum s file)] := by
  unfold write_server_file
  simp only [hfile, hlock, hopen, Bool.true_eq_false, if_false]

/-- A missing file is created and stays empty. -/
theorem write_created (message : Bytes) (lineNum : Int) (s : Bytes)
    (hfile : w.fopenRead path = none) (hopen : w.fopenWrite path = true) :
    (write_server_file w message path lineNum s).written = [(path, [])] := by
  unfold write_server_file
  simp only [hfile, hopen, Bool.true_eq_false, if_false]

theorem after_written {r : Reply} (h : r.written = [(path, file)]) :
    (after w r).fopenRead path = some file ∧
      ∀ q ≠ path, (after w r).fopenRead q = w.fopenRead q := by
  unfold after
  simp only [h]
  constructor
  · rw [List.lookup_cons_self]
    rfl
  · intro q hq
    rw [List.lookup_cons, beq_false_of_ne hq, List.lookup_nil]
    rfl

/-- **The files after a write to an existing file.** -/
theorem after_write (message : Bytes) (lineNum : Int) (s : Bytes)
    (hfile : w.fopenRead path = some file) (hlock : w.flock path = true)
    (hopen : w.fopenWrite path = true) :
    (after w (write_server_file w message path lineNum s)).fopenRead path
      = some (newFile lineNum s file) :=
  (after_written (write_written message lineNum s hfile hlock hopen)).1

/-! ## §4. What is read. -/

/-- The text that `read_server_file` appends, shown with an empty message. -/
def appended (w : World) (path : Bytes) (lineNum : Int) : Bytes :=
  cstr (read_server_file w [] path lineNum).message

/-- It appends that text to any message. -/
theorem read_appends (w : World) (b path : Bytes) (lineNum : Int) :
    cstr (read_server_file w b path lineNum).message = cstr b ++ appended w path lineNum := by
  have hself : cstr b = cstr b ++ cstr [] := (List.append_nil _).symm
  unfold appended read_server_file
  cases w.fopenRead path with
  | none => exact hself
  | some file =>
    simp only
    split_ifs
    · exact hself
    · have hpieces : ∀ s ∈ (lines 99 file).map cstr, 0 ∉ s := by
        intro s hs
        obtain ⟨line, -, rfl⟩ := List.mem_map.mp hs
        exact cstr_no_nul line
      simp only [answer, cstr_strcats hpieces]
      rfl
    · exact hself
    · cases (lines 99 file)[lineNum.toNat - 1]? with
      | none => exact hself
      | some line =>
        simp only [answer, cstr_strcat _ (cstr_no_nul line)]
        rfl

/-- **A request for one line appends the piece of that number.** -/
theorem appended_line {n : Nat} (hfile : w.fopenRead path = some file)
    (hlock : w.flock path = true) (hn : 1 ≤ n) :
    appended w path n = (((lines 99 file)[n - 1]?).map cstr).getD [] := by
  unfold appended read_server_file
  simp only [hfile, hlock, Bool.true_eq_false, if_false]
  rw [if_neg (by omega), if_neg (by omega), Int.toNat_natCast]
  cases (lines 99 file)[n - 1]? with
  | none => rfl
  | some line =>
    simp only [answer, cstr_strcat _ (cstr_no_nul line)]
    rfl

/-! ## §5. Sample data. -/

/-- A server whose directory holds at most one file. -/
def withFile (file : Option Bytes) : World where
  opendir := fun _ => none
  access := fun _ => file.isSome
  fopenRead := fun _ => file
  fopenWrite := fun _ => true
  flock := fun _ => true
  tar := fun _ => none
  kill := fun _ => true

theorem withFile_counted {file : Bytes} (path : Bytes) (h : (lines 255 file).length < 2 ^ 31) :
    Counted (withFile (some file)) path := by
  rintro _ ⟨⟩
  exact h

end SystemOS.FileServer.Editing
