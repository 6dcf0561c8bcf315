/-
  SystemOS.FileServer.Appending — a line written to the end of a file.

  With a line number that the file does not have, `write_server_file` copies the file through
  strings and puts the new text and a newline behind it.  A missing file is created, and nothing is
  written to it.

  Main results:
    * `appended_lines` — the file gains the line when it holds no NUL and ends in a newline.
    * `replaced_lines` — a write in the place of a piece never appends a line.
    * `appends_iff`    — when a line is appended.
-/
import SystemOS.Lib.TextLines
import SystemOS.FileServer.Editing

namespace SystemOS.FileServer.Appending

open SystemOS.Lib.Lines SystemOS.Lib.Strings SystemOS.Lib.Buffers
open SystemOS.FileServer.FileRequests (newFile)
open SystemOS.FileServer.Handler SystemOS.FileServer.Editing

/-! ## §1. What is promised. -/

/-- The request runs without an overflow; after it the lines of the file are those before, none if
    there was no file, and the new line; the other files are the same. -/
structure AppendsLine (w : World) (message path : Bytes) (lineNum : Int) (s : Bytes) : Prop where
  counted : Counted w path
  lines_eq : ∃ file,
    (after w (write_server_file w message path lineNum s)).fopenRead path = some file
      ∧ textLines file = textLines ((w.fopenRead path).getD []) ++ [s]
  others : ∀ q ≠ path,
    (after w (write_server_file w message path lineNum s)).fopenRead q = w.fopenRead q

/-- The file is text whose lines have their newlines, the text is one line, and the number is that
    of no piece of the file. -/
structure Appendable (file : Bytes) (lineNum : Int) (s : Bytes) : Prop where
  no_nul : 0 ∉ file
  ended : Ended file
  one_line : 10 ∉ s
  behind : lineNum ≤ 0 ∨ ((lines 255 file).length : Int) < lineNum

variable {file s : Bytes} {lineNum : Int} {i : Nat}

/-! ## §2. The file written. -/

/-- **The file gains the line.** -/
theorem appended_lines (hs : 0 ∉ s) (h : Appendable file lineNum s) :
    textLines (newFile lineNum s file) = textLines file ++ [s] := by
  rw [newFile_append hs h.behind, kept_lines 254 h.no_nul]
  exact textLines_append h.ended h.one_line

/-- A NUL byte of the file is lost. -/
theorem no_nul_of_appended (h : textLines (newFile lineNum s file) = textLines file ++ [s]) :
    0 ∉ file := by
  intro hmem
  have hbytes := congrArg List.flatten h
  rw [List.flatten_append, textLines_flatten, textLines_flatten] at hbytes
  have hnul : (0 : UInt8) ∈ (newFile lineNum s file).filter (· ≠ 10) := by
    rw [hbytes]
    refine List.mem_append_left _ (List.mem_filter.mpr ⟨hmem, ?_⟩)
    decide
  exact kept_no_nul _ (List.mem_filter.mp hnul).1

/-- A last line without its newline is continued by the text. -/
theorem ended_of_appended (hs : 0 ∉ s) (hnul : 0 ∉ file) (hline : 10 ∉ s)
    (hn : lineNum ≤ 0 ∨ ((lines 255 file).length : Int) < lineNum)
    (h : textLines (newFile lineNum s file) = textLines file ++ [s]) : Ended file := by
  by_contra hopen
  have hcount := congrArg List.length h
  rw [newFile_append hs hn, kept_lines 254 hnul, ← List.append_assoc, List.length_append,
    textLines_length, textLines_length, if_pos (ended_newline _), if_neg hopen, List.count_append,
    List.count_append, List.count_eq_zero_of_not_mem hline] at hcount
  simp at hcount

/-- A piece without other bytes is a newline. -/
theorem piece_of_newlines {line : Bytes} (hline : line ∈ lines 255 file)
    (h : line.filter (· ≠ 10) = []) : line = [10] := by
  obtain ⟨hne, -, hend⟩ := lines_spec (n := 254) hline
  have hall : ∀ b ∈ line, b = 10 := by
    intro b hb
    by_contra hb10
    have hmem : b ∈ line.filter (· ≠ 10) := List.mem_filter.mpr ⟨hb, by simpa using hb10⟩
    rw [h] at hmem
    cases hmem
  cases line with
  | nil => exact absurd rfl hne
  | cons b line =>
    rw [hall b List.mem_cons_self] at hend ⊢
    cases line with
    | nil => rfl
    | cons c line =>
      exact absurd List.mem_cons_self (hend [10] (c :: line) rfl (List.cons_ne_nil c line))

/-- **A write in the place of a piece never appends a line**: the bytes of the piece are lost, and
    in the place of a newline the text does not become a line of its own. -/
theorem replaced_lines (hs : 0 ∉ s) (hnul : 0 ∉ file) (hline : 10 ∉ s)
    (hi : i < (lines 255 file).length) :
    textLines (newFile ((i + 1 : Nat) : Int) s file) ≠ textLines file ++ [s] := by
  intro h
  have hnew := newFile_pieces hnul hs hi
  have hold : file = ((lines 255 file).take i).flatten ++ (lines 255 file)[i]
      ++ ((lines 255 file).drop (i + 1)).flatten := by
    rw [List.append_assoc]
    exact lines_parts hi
  have hmem : (lines 255 file)[i] ∈ lines 255 file := List.getElem_mem hi
  generalize (lines 255 file)[i] = piece at hold hmem
  generalize ((lines 255 file).take i).flatten = front at hnew hold
  generalize ((lines 255 file).drop (i + 1)).flatten = back at hnew hold
  -- the piece has no byte but its newline
  have hbytes := congrArg (fun ls => (List.flatten ls).length) h
  simp only [List.flatten_append, textLines_flatten, hnew] at hbytes
  rw [hold] at hbytes
  have hlines : s.filter (· ≠ 10) = s :=
    List.filter_eq_self.mpr fun b hb => by simpa using ne_of_mem_of_not_mem hb hline
  simp only [List.filter_append, List.length_append, hlines, List.flatten_cons, List.flatten_nil,
    List.append_nil] at hbytes
  have hnewline : piece = [10] := by
    refine piece_of_newlines hmem (List.eq_nil_of_length_eq_zero ?_)
    have hten : (([10] : Bytes).filter (· ≠ 10)).length = 0 := rfl
    omega
  -- so the number of lines has not changed
  have hcount := congrArg List.length h
  rw [List.length_append, textLines_length, textLines_length, hnew, hold, hnewline,
    ← List.append_assoc front s [10]] at hcount
  simp only [ended_behind, List.count_append, List.count_eq_zero_of_not_mem hline,
    List.length_singleton] at hcount
  omega

/-! ## §3. When a line is appended. -/

theorem newFile_lines_iff (hs : 0 ∉ s) :
    textLines (newFile lineNum s file) = textLines file ++ [s] ↔ Appendable file lineNum s := by
  constructor
  · intro h
    have hnul := no_nul_of_appended h
    have hline : 10 ∉ s := by
      have hlast : s ∈ textLines (newFile lineNum s file) := by
        rw [h]
        exact List.mem_append_right _ List.mem_cons_self
      exact textLines_no_newline hlast
    have hbehind : lineNum ≤ 0 ∨ ((lines 255 file).length : Int) < lineNum := by
      by_contra hin
      push Not at hin
      obtain ⟨i, hi⟩ : ∃ i : Nat, lineNum = ((i + 1 : Nat) : Int) := ⟨(lineNum - 1).toNat, by omega⟩
      rw [hi] at h
      exact replaced_lines hs hnul hline (by omega) h
    exact ⟨hnul, ended_of_appended hs hnul hline hbehind h, hline, hbehind⟩
  · exact appended_lines hs

/-- **When a line is appended**, for every file or none, every line number and every text. -/
theorem appends_iff (w : World) (message path : Bytes) (lineNum : Int) (s : CString)
    (hlock : w.flock path = true) (hopen : w.fopenWrite path = true) :
    AppendsLine w message path lineNum s.bytes ↔
      Counted w path ∧ ∃ file, w.fopenRead path = some file ∧ Appendable file lineNum s.bytes := by
  cases hfile : w.fopenRead path with
  | none =>
    have hcreated := after_written (w := w)
      (write_created message lineNum s.bytes hfile hopen)
    refine iff_of_false (fun h => ?_) ?_
    · obtain ⟨file, hafter, hlines⟩ := h.lines_eq
      rw [hcreated.1] at hafter
      rw [← Option.some.inj hafter] at hlines
      have hcount := congrArg List.length hlines
      rw [List.length_append] at hcount
      exact absurd hcount (by simp [textLines])
    · intro h
      obtain ⟨-, file, hnone, -⟩ := h
      cases hnone
  | some file =>
    have hwritten := after_written (w := w)
      (write_written message lineNum s.bytes hfile hlock hopen)
    constructor
    · intro h
      obtain ⟨file', hafter, hlines⟩ := h.lines_eq
      rw [hwritten.1] at hafter
      rw [← Option.some.inj hafter, hfile, Option.getD_some] at hlines
      exact ⟨h.counted, file, rfl, (newFile_lines_iff s.no_nul).mp hlines⟩
    · intro h
      obtain ⟨hcounted, file', hsome, happ⟩ := h
      cases hsome
      refine ⟨hcounted, ⟨_, hwritten.1, ?_⟩, hwritten.2⟩
      rw [hfile, Option.getD_some]
      exact (newFile_lines_iff s.no_nul).mpr happ

/-! ## §4. Sample files. -/

/-- A line behind one line. -/
theorem appends_iff_one : AppendsLine (withFile (some [97, 10])) [] [] 0 [98] :=
  (appends_iff (withFile (some [97, 10])) [] [] 0 ⟨[98], by decide⟩ rfl rfl).mpr
    ⟨withFile_counted [] (by decide), [97, 10], rfl, by decide, by decide, by decide,
      .inl (by decide)⟩

/-- **A missing file is created empty**: the line is lost. -/
theorem created_empty : ¬ ∀ (w : World) (message path : Bytes) (lineNum : Int) (s : CString),
    w.flock path = true → w.fopenWrite path = true →
      (lineNum ≤ 0 ∨ ((textLines ((w.fopenRead path).getD [])).length : Int) < lineNum) →
      AppendsLine w message path lineNum s.bytes := by
  intro hclaim
  have happends := hclaim (withFile none) [] [] 0 ⟨[98], by decide⟩ rfl rfl (.inl (by decide))
  obtain ⟨file, hafter, hlines⟩ := happends.lines_eq
  have hcreated : (after (withFile none)
      (write_server_file (withFile none) [] [] 0 [98])).fopenRead [] = some [] :=
    (after_written (write_created [] 0 [98] rfl rfl)).1
  rw [hcreated] at hafter
  rw [← Option.some.inj hafter] at hlines
  exact absurd hlines (by decide)

end SystemOS.FileServer.Appending
