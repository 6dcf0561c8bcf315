/-
  SystemOS.FileServer.PutGet — a line that is written, and the lines that are read afterwards.

  `read_server_file` counts pieces of at most 99 bytes and `write_server_file` pieces of at most 255
  bytes.  While the lines in front of line `n` have at most 98 bytes the two counts are those of the
  lines.  A longer line puts the reader ahead: its `n`-th piece lies in front of what the writer
  replaces, and shows nothing of the new text.

  Main results:
    * `putGet_aligned` — when the law holds for a line behind lines of at most 98 bytes.
    * `putGet_ahead`   — behind a longer line.
    * `putGet_iff`, `law_all_iff` — when the law holds, for one text and for all short ones.
-/
import SystemOS.FileServer.Editing

namespace SystemOS.FileServer.PutGet

open SystemOS.Lib.Lines SystemOS.Lib.Strings SystemOS.Lib.Buffers
open SystemOS.FileServer.FileRequests (newFile)
open SystemOS.FileServer.Handler SystemOS.FileServer.Editing

/-! ## §1. The law and its condition. -/

/-- The write of line `n` runs without an overflow; after it the request for line `n` reads the new
    text, and requests for the other lines of the file read what they read before. -/
structure Law (w : World) (message path : Bytes) (count n : Nat) (s : Bytes) : Prop where
  counted : Counted w path
  put : appended (after w (write_server_file w message path n s)) path n = s ++ [10]
  get : ∀ m : Nat, 1 ≤ m → m ≤ count → m ≠ n →
    appended (after w (write_server_file w message path n s)) path m = appended w path m

/-- The longest line that the reader reads in one piece. -/
def readable : Nat := 98

/-- The lines in front of line `n` are read in one piece each. -/
def Aligned (ls : List Bytes) (n : Nat) : Prop := ∀ l ∈ ls.take (n - 1), l.length ≤ readable

/-- Behind what the writer replaces of line `n`, the reader finds the pieces that it found behind
    the first piece of line `n`, as far as lines are counted. -/
def SameTails (ls : List Bytes) (n : Nat) : Prop :=
  ∀ i < ls.length - n, (lines 99 (fgets 99 (unlines (ls.drop (n - 1)))).2)[i]?
    = (lines 99 (fgets 255 (unlines (ls.drop (n - 1)))).2)[i]?

/-- The reader finds the text as its `n`-th piece already.  The writer has the same piece there, or
    what the reader takes for the lines of the file is no more than the writer's pieces in front and
    a beginning of the text behind them. -/
def Unseen (ls : List Bytes) (n : Nat) (s : Bytes) : Prop :=
  (lines 99 (unlines ls))[n - 1]? = some (s ++ [10])
    ∧ ((lines 255 (unlines ls))[n - 1]? = some (s ++ [10])
      ∨ ((lines 99 (unlines ls)).take ls.length).flatten
        <+: ((lines 255 (unlines ls)).take (n - 1)).flatten ++ s)

variable {ls pre post : List Bytes} {l s t file : Bytes} {n : Nat}

/-! ## §2. Pieces and what is appended. -/

/-- Lines without newline and NUL. -/
def AreLines (ls : List Bytes) : Prop := ∀ l ∈ ls, 10 ∉ l ∧ 0 ∉ l

theorem unlines_no_nul (hls : AreLines ls) : 0 ∉ unlines ls := by
  intro hmem
  obtain ⟨line, hline, h0⟩ := List.mem_flatten.mp hmem
  obtain ⟨l, hl, rfl⟩ := List.mem_map.mp hline
  rcases List.mem_append.mp h0 with h0 | h0
  · exact (hls l hl).2 h0
  · exact absurd h0 (by decide)

/-- A piece of a file without NUL is appended as it is. -/
theorem piece_getD (hfile : 0 ∉ file) (i : Nat) :
    (((lines 99 file)[i]?).map cstr).getD [] = ((lines 99 file)[i]?).getD [] := by
  cases hi : (lines 99 file)[i]? with
  | none => rfl
  | some line =>
    have hline := piece_no_nul (n := 98) hfile line (List.mem_of_getElem? hi)
    rw [Option.map_some, Option.getD_some, Option.getD_some, cstr_of_no_nul hline]

theorem piece_ne_nil {i : Nat} : ∀ line, (lines 99 file)[i]? = some line → line ≠ [] := by
  intro line hi
  exact (lines_spec (n := 98) (List.mem_of_getElem? hi)).1

/-- Pieces are not empty, so that what is appended tells whether there was one. -/
theorem getD_inj {o o' : Option Bytes} (ho : ∀ line, o = some line → line ≠ [])
    (ho' : ∀ line, o' = some line → line ≠ []) : o.getD [] = o'.getD [] ↔ o = o' := by
  cases o with
  | none =>
    cases o' with
    | none => exact iff_of_true rfl rfl
    | some line' => exact iff_of_false (ho' line' rfl).symm nofun
  | some line =>
    cases o' with
    | none => exact iff_of_false (ho line rfl) nofun
    | some line' => rw [Option.getD_some, Option.getD_some, Option.some_inj]

/-- What is appended determines the piece. -/
theorem piece_eq_iff {f g : Bytes} (hf : 0 ∉ f) (hg : 0 ∉ g) (i j : Nat) :
    (((lines 99 f)[i]?).map cstr).getD [] = (((lines 99 g)[j]?).map cstr).getD []
      ↔ (lines 99 f)[i]? = (lines 99 g)[j]? := by
  rw [piece_getD hf, piece_getD hg]
  exact getD_inj piece_ne_nil piece_ne_nil

theorem piece_eq_some_iff (hfile : 0 ∉ file) (i : Nat) :
    (((lines 99 file)[i]?).map cstr).getD [] = s ++ [10]
      ↔ (lines 99 file)[i]? = some (s ++ [10]) := by
  have hne : ∀ line, some (s ++ [10]) = some line → line ≠ [] := by
    intro line hline
    rw [← Option.some.inj hline]
    exact List.append_ne_nil_of_right_ne_nil s nofun
  rw [piece_getD hfile]
  exact getD_inj piece_ne_nil hne

/-- There is a piece for each line. -/
theorem pieces_le (n : Nat) (ls : List Bytes) :
    ls.length ≤ (lines (n + 1) (unlines ls)).length := by
  have hcomplete : firstComplete (n + 1) (ls.length + 0) (unlines ls ++ []) = true :=
    firstComplete_unlines ls rfl
  rw [List.append_nil] at hcomplete
  exact firstComplete_le hcomplete

/-- The file with `s` in the place of the writer's `n`-th piece. -/
def replaced (ls : List Bytes) (n : Nat) (s : Bytes) : Bytes :=
  ((lines 255 (unlines ls)).take (n - 1)).flatten ++ (s ++ [10])
    ++ ((lines 255 (unlines ls)).drop n).flatten

theorem newFile_replaced (hls : AreLines ls) (hs : 0 ∉ s) (hn : 1 ≤ n) (hle : n ≤ ls.length) :
    newFile n s (unlines ls) = replaced ls n s := by
  have hlen : ls.length ≤ (lines 255 (unlines ls)).length := pieces_le 254 ls
  have hnew := newFile_pieces (i := n - 1) (unlines_no_nul hls) hs (by omega)
  rw [Nat.sub_add_cancel hn] at hnew
  exact hnew

theorem replaced_no_nul (hls : AreLines ls) (hs : 0 ∉ s) (hn : 1 ≤ n) (hle : n ≤ ls.length) :
    0 ∉ replaced ls n s := by
  rw [← newFile_replaced hls hs hn hle]
  exact kept_no_nul _

variable {w : World} {message path : Bytes}

/-- The law in pieces: the reader's `n`-th piece is the text, and the others up to the number of
    lines are what they were. -/
def PieceLaw (ls : List Bytes) (n : Nat) (s : Bytes) : Prop :=
  (lines 99 (replaced ls n s))[n - 1]? = some (s ++ [10])
    ∧ ∀ m : Nat, 1 ≤ m → m ≤ ls.length → m ≠ n →
      (lines 99 (replaced ls n s))[m - 1]? = (lines 99 (unlines ls))[m - 1]?

theorem law_iff (message : Bytes) (hfile : w.fopenRead path = some (unlines ls))
    (hlock : w.flock path = true) (hopen : w.fopenWrite path = true) (hls : AreLines ls)
    (hs : 0 ∉ s) (hn : 1 ≤ n) (hle : n ≤ ls.length) :
    Law w message path ls.length n s ↔ Counted w path ∧ PieceLaw ls n s := by
  have hafter := after_write message n s hfile hlock hopen
  rw [newFile_replaced hls hs hn hle] at hafter
  have hlock' : (after w (write_server_file w message path n s)).flock path = true := hlock
  have hold := unlines_no_nul hls
  have hnew : 0 ∉ replaced ls n s := replaced_no_nul hls hs hn hle
  constructor
  · intro h
    refine ⟨h.counted, ?_, ?_⟩
    · have hput := h.put
      rw [appended_line hafter hlock' hn, piece_eq_some_iff hnew] at hput
      exact hput
    · intro m hm hmle hne
      have hget := h.get m hm hmle hne
      rw [appended_line hafter hlock' hm, appended_line hfile hlock hm, piece_eq_iff hnew hold]
        at hget
      exact hget
  · intro h
    refine ⟨h.1, ?_, ?_⟩
    · rw [appended_line hafter hlock' hn, piece_eq_some_iff hnew]
      exact h.2.1
    · intro m hm hmle hne
      rw [appended_line hafter hlock' hm, appended_line hfile hlock hm, piece_eq_iff hnew hold]
      exact h.2.2 m hm hmle hne

/-- A text that the reader returns as one piece has at most 98 bytes. -/
theorem Law.short (h : Law w message path ls.length n s)
    (hfile : w.fopenRead path = some (unlines ls)) (hlock : w.flock path = true)
    (hopen : w.fopenWrite path = true) (hls : AreLines ls) (hs : 0 ∉ s) (hn : 1 ≤ n)
    (hle : n ≤ ls.length) : s.length ≤ readable := by
  have hput := ((law_iff message hfile hlock hopen hls hs hn hle).mp h).2.1
  have hlen := (lines_spec (n := 98) (List.mem_of_getElem? hput)).2.1
  rw [List.length_append, List.length_singleton] at hlen
  unfold readable
  omega

/-! ## §3. Behind lines that are read in one piece. -/

section Aligned

variable (hpre : ∀ l ∈ pre, 10 ∉ l ∧ l.length ≤ readable)
include hpre

/-- The pieces behind those lines. -/
theorem pieces_behind (t : Bytes) (j : Nat) :
    (lines 99 (unlines pre ++ t))[pre.length + j]? = (lines 99 t)[j]? := by
  rw [lines_unlines (n := 98) hpre, List.getElem?_append_right (by rw [List.length_map]; omega),
    List.length_map, Nat.add_sub_cancel_left]

/-- The pieces in front do not depend on what is behind. -/
theorem pieces_front (t : Bytes) {j : Nat} (hj : j < pre.length) :
    (lines 99 (unlines pre ++ t))[j]? = (pre.map (· ++ [10]))[j]? := by
  rw [lines_unlines (n := 98) hpre, List.getElem?_append_left (by rw [List.length_map]; omega)]

/-- The file written. -/
theorem replaced_aligned (l : Bytes) (post : List Bytes) (s : Bytes) :
    replaced (pre ++ l :: post) (pre.length + 1) s
      = unlines pre ++ (s ++ 10 :: (fgets 255 (unlines (l :: post))).2) := by
  have hfit : ∀ l ∈ pre, 10 ∉ l ∧ l.length ≤ 254 := by
    intro l hl
    obtain ⟨hnl, hlen⟩ := hpre l hl
    unfold readable at hlen
    exact ⟨hnl, by omega⟩
  have hpieces : lines 255 (unlines (pre ++ l :: post)) = pre.map (· ++ [10])
      ++ (fgets 255 (unlines (l :: post))).1 :: lines 255 (fgets 255 (unlines (l :: post))).2 := by
    rw [unlines_append, lines_unlines hfit, lines_cons (unlines_ne_nil l post)]
  have hlen : (pre.map (· ++ [10])).length = pre.length := List.length_map _
  unfold replaced
  rw [hpieces, Nat.add_sub_cancel, List.take_left' hlen, ← List.drop_drop, List.drop_left' hlen,
    List.drop_succ_cons, List.drop_zero, lines_flatten]
  simp [unlines]

/-- The pieces of the file in front of the write, from line `n` on. -/
theorem old_pieces (l : Bytes) (post : List Bytes) (j : Nat) :
    (lines 99 (unlines (pre ++ l :: post)))[pre.length + (j + 1)]?
      = (lines 99 (fgets 99 (unlines (l :: post))).2)[j]? := by
  rw [unlines_append, pieces_behind hpre, lines_cons (unlines_ne_nil l post)]
  rfl

/-- The pieces of the file written, from the text on. -/
theorem new_pieces (l : Bytes) (post : List Bytes) (hs : 10 ∉ s) (hlen : s.length ≤ readable)
    (j : Nat) : (lines 99 (replaced (pre ++ l :: post) (pre.length + 1) s))[pre.length + j]?
      = ((s ++ [10]) :: lines 99 (fgets 255 (unlines (l :: post))).2)[j]? := by
  rw [replaced_aligned hpre, pieces_behind hpre, lines_cons (by simp), fgets_line (n := 98) hs hlen]

/-- The pieces in front of the write are the same. -/
theorem front_pieces (l : Bytes) (post : List Bytes) (s : Bytes) {j : Nat} (hj : j < pre.length) :
    (lines 99 (replaced (pre ++ l :: post) (pre.length + 1) s))[j]?
      = (lines 99 (unlines (pre ++ l :: post)))[j]? := by
  rw [replaced_aligned hpre, unlines_append, pieces_front hpre _ hj, pieces_front hpre _ hj]

/-- **The law behind such lines** asks for the same pieces behind the line written. -/
theorem putGet_aligned (l : Bytes) (post : List Bytes) (hs : 10 ∉ s) (hlen : s.length ≤ readable) :
    PieceLaw (pre ++ l :: post) (pre.length + 1) s
      ↔ SameTails (pre ++ l :: post) (pre.length + 1) := by
  have hcount : (pre ++ l :: post).length = pre.length + (post.length + 1) := by
    rw [List.length_append, List.length_cons]
  unfold PieceLaw SameTails
  rw [hcount, Nat.add_sub_cancel, List.drop_left' rfl,
    show pre.length + (post.length + 1) - (pre.length + 1) = post.length by omega]
  constructor
  · intro h i hi
    have hpiece := h.2 (pre.length + (i + 1) + 1) (by omega) (by omega) (by omega)
    rw [Nat.add_sub_cancel, new_pieces hpre l post hs hlen, old_pieces hpre,
      List.getElem?_cons_succ] at hpiece
    exact hpiece.symm
  · intro h
    constructor
    · have hfirst := new_pieces hpre l post hs hlen 0
      rw [Nat.add_zero, List.getElem?_cons_zero] at hfirst
      exact hfirst
    · intro m hm hmle hmne
      by_cases hfront : m - 1 < pre.length
      · exact front_pieces hpre l post s hfront
      · obtain ⟨i, hi⟩ : ∃ i, m - 1 = pre.length + (i + 1) := ⟨m - 1 - pre.length - 1, by omega⟩
        rw [hi, new_pieces hpre l post hs hlen, old_pieces hpre, List.getElem?_cons_succ]
        exact (h i (by omega)).symm

end Aligned

/-! ## §4. Behind a longer line. -/

/-- The first piece of a longer line has more than 99 bytes. -/
theorem long_piece (hl : 10 ∉ l) (hlong : readable < l.length) (t : Bytes) :
    99 < (fgets 255 (l ++ 10 :: t)).1.length := by
  unfold readable at hlong
  by_cases hfit : l.length ≤ 254
  · rw [fgets_line hl hfit, List.length_append, List.length_singleton]
    omega
  · rw [fgets_run hl (by omega), List.length_take]
    omega

/-- **A longer line puts the reader ahead**: it has one complete piece more than the writer in what
    the writer has read. -/
theorem reader_ahead (hpre : ∀ l ∈ pre, 10 ∉ l) (hlong : ∃ l ∈ pre, readable < l.length)
    (t : Bytes) : firstComplete 99 (pre.length + 1)
      ((lines 255 (unlines pre ++ t)).take pre.length).flatten = true := by
  induction pre with
  | nil =>
    obtain ⟨l, hl, -⟩ := hlong
    cases hl
  | cons l pre ih =>
    obtain ⟨hl, hpre⟩ := List.forall_mem_cons.mp hpre
    have hne : l ++ 10 :: (unlines pre ++ t) ≠ [] := by simp
    have hcomplete : firstComplete 255 (pre.length + 1) (l ++ 10 :: (unlines pre ++ t)) = true :=
      firstComplete_line l (firstComplete_unlines (j := 0) pre rfl)
    rw [firstComplete, Bool.and_eq_true] at hcomplete
    rw [unlines_cons, List.append_assoc, List.cons_append, List.length_cons, lines_cons hne,
      List.take_succ_cons, List.flatten_cons]
    by_cases hlen : readable < l.length
    · exact firstComplete_long (by omega) hcomplete.1 (long_piece hl hlen _)
        (firstComplete_pieces (by omega) hcomplete.2)
    · -- the line is one piece for both
      have hfits : l.length ≤ 254 := by
        unfold readable at hlen
        omega
      rw [fgets_line hl hfits, List.append_assoc]
      refine firstComplete_line l (ih hpre ?_)
      obtain ⟨l', hl', hlong'⟩ := hlong
      rcases List.mem_cons.mp hl' with rfl | hl'
      · exact absurd hlong' hlen
      · exact ⟨l', hl', hlong'⟩

/-- **Behind a longer line** the reader's `n`-th piece is the same after the write. -/
theorem putGet_ahead (hls : AreLines ls) (hn : 1 ≤ n) (hle : n ≤ ls.length)
    (hlong : ¬ Aligned ls n) :
    (lines 99 (replaced ls n s))[n - 1]? = (lines 99 (unlines ls))[n - 1]? := by
  have hpre : ∀ l ∈ ls.take (n - 1), 10 ∉ l := fun l hl => (hls l (List.mem_of_mem_take hl)).1
  have hlen : (ls.take (n - 1)).length = n - 1 := by
    rw [List.length_take]
    omega
  have hahead := reader_ahead hpre (by unfold Aligned at hlong; push Not at hlong; exact hlong)
    (unlines (ls.drop (n - 1)))
  rw [← unlines_append, List.take_append_drop, hlen] at hahead
  have hpieces : ls.length ≤ (lines 255 (unlines ls)).length := pieces_le 254 ls
  have hin : n - 1 < (lines 255 (unlines ls)).length := by omega
  have hnew := getElem_lines_append (i := n - 1) ((s ++ [10])
    ++ ((lines 255 (unlines ls)).drop n).flatten) hahead (Nat.lt_succ_self _)
  have hold := getElem_lines_append (i := n - 1) ((lines 255 (unlines ls))[n - 1]
    ++ ((lines 255 (unlines ls)).drop (n - 1 + 1)).flatten) hahead (Nat.lt_succ_self _)
  rw [← lines_parts (n := 254) hin] at hold
  unfold replaced
  rw [List.append_assoc, hnew, hold]

/-- The reader's pieces up to the number of lines are the same exactly when what they cover is in
    front of the file written, too. -/
theorem same_pieces_iff : (∀ i < ls.length,
      (lines 99 (replaced ls n s))[i]? = (lines 99 (unlines ls))[i]?)
    ↔ ((lines 99 (unlines ls)).take ls.length).flatten <+: replaced ls n s := by
  constructor
  · intro h
    have htake : (lines 99 (unlines ls)).take ls.length
        = (lines 99 (replaced ls n s)).take ls.length := by
      refine List.ext_getElem? fun i => ?_
      rw [List.getElem?_take, List.getElem?_take]
      split
      · next hi => exact (h i hi).symm
      · rfl
    rw [htake]
    refine ⟨((lines 99 (replaced ls n s)).drop ls.length).flatten, ?_⟩
    rw [← List.flatten_append, List.take_append_drop, lines_flatten]
  · rintro ⟨t, ht⟩ i hi
    have hcomplete : firstComplete 99 (ls.length + 0) (unlines ls ++ []) = true :=
      firstComplete_unlines ls rfl
    rw [List.append_nil, Nat.add_zero] at hcomplete
    have hcovered := firstComplete_pieces (n := 98) (Nat.le_refl 98) hcomplete
    have hold := getElem_lines_append ((lines 99 (unlines ls)).drop ls.length).flatten hcovered hi
    rw [← List.flatten_append, List.take_append_drop, lines_flatten] at hold
    rw [hold, ← ht]
    exact getElem_lines_append t hcovered hi

/-- **What the reader covers is in front of the file written** when it ends within the text, or when
    the file does not change. -/
theorem covered_iff (hn : 1 ≤ n) (hle : n ≤ ls.length) (hs : 10 ∉ s) (hlen : s.length ≤ readable) :
    ((lines 99 (unlines ls)).take ls.length).flatten <+: replaced ls n s
      ↔ (lines 255 (unlines ls))[n - 1]? = some (s ++ [10])
        ∨ ((lines 99 (unlines ls)).take ls.length).flatten
          <+: ((lines 255 (unlines ls)).take (n - 1)).flatten ++ s := by
  have hpieces : ls.length ≤ (lines 255 (unlines ls)).length := pieces_le 254 ls
  have hin : n - 1 < (lines 255 (unlines ls)).length := by omega
  have hparts := lines_parts (n := 254) hin
  have hdrop := lines_drop 254 (n - 1) (unlines ls)
  rw [List.drop_eq_getElem_cons hin, List.flatten_cons] at hdrop
  rw [Nat.sub_add_cancel hn] at hparts hdrop
  rw [List.getElem?_eq_getElem hin, Option.some_inj]
  have hcovered : ((lines 99 (unlines ls)).take ls.length).flatten <+: unlines ls := by
    refine ⟨((lines 99 (unlines ls)).drop ls.length).flatten, ?_⟩
    rw [← List.flatten_append, List.take_append_drop, lines_flatten]
  unfold replaced
  generalize ((lines 99 (unlines ls)).take ls.length).flatten = covered at hcovered
  generalize (lines 255 (unlines ls))[n - 1] = piece at hparts hdrop
  generalize ((lines 255 (unlines ls)).take (n - 1)).flatten = front at hparts
  generalize (lines 255 (unlines ls)).drop n = behind at hparts hdrop
  have hfront : front ++ s <+: front ++ (s ++ [10]) ++ behind.flatten :=
    ⟨[10] ++ behind.flatten, by simp⟩
  constructor
  · intro h
    by_cases hshort : covered.length ≤ (front ++ s).length
    · exact .inr (List.prefix_of_prefix_length_le h hfront hshort)
    · left
      -- the reader goes on behind the text, and finds it in the old file
      have hnew : front ++ (s ++ [10]) <+: covered := by
        refine List.prefix_of_prefix_length_le (List.prefix_append _ _) h ?_
        rw [← List.append_assoc, List.length_append, List.length_singleton]
        omega
      have hold := hnew.trans hcovered
      rw [hparts, List.prefix_append_right_inj] at hold
      obtain ⟨t, ht⟩ := hold
      have hne : piece ++ behind.flatten ≠ [] := by
        rw [← ht]
        simp
      rw [lines_cons hne, List.cons.injEq] at hdrop
      unfold readable at hlen
      have hline := fgets_line (n := 254) hs (by omega) t
      rw [← hdrop.1, ← ht, List.append_assoc]
      exact congrArg Prod.fst hline
  · rintro (hsame | h)
    · rw [hsame] at hparts
      rw [List.append_assoc, ← hparts]
      exact hcovered
    · exact h.trans hfront

/-! ## §5. When the law holds. -/

section Written

variable (hfile : w.fopenRead path = some (unlines ls)) (hlock : w.flock path = true)
  (hopen : w.fopenWrite path = true) (hls : AreLines ls) (hn : 1 ≤ n) (hle : n ≤ ls.length)
include hfile hlock hopen hls hn hle

theorem law_iff_of_aligned (s : CString) (hs : 10 ∉ s.bytes) (haligned : Aligned ls n) :
    Law w message path ls.length n s.bytes
      ↔ Counted w path ∧ s.bytes.length ≤ readable ∧ SameTails ls n := by
  have hlaw := law_iff message hfile hlock hopen hls s.no_nul hn hle
  have hsplit : ls = ls.take (n - 1) ++ ls[n - 1] :: ls.drop n := by
    have hdrop := List.drop_eq_getElem_cons (l := ls) (i := n - 1) (by omega)
    rw [Nat.sub_add_cancel hn] at hdrop
    rw [← hdrop, List.take_append_drop]
  have hpre : ∀ l ∈ ls.take (n - 1), 10 ∉ l ∧ l.length ≤ readable := fun l hl =>
    ⟨(hls l (List.mem_of_mem_take hl)).1, haligned l hl⟩
  have hnth : (ls.take (n - 1)).length + 1 = n := by
    rw [List.length_take]
    omega
  have hiff := fun hlen => putGet_aligned hpre ls[n - 1] (ls.drop n) hs hlen
  rw [hnth, ← hsplit] at hiff
  constructor
  · intro h
    have hlen := h.short hfile hlock hopen hls s.no_nul hn hle
    exact ⟨h.counted, hlen, (hiff hlen).mp (hlaw.mp h).2⟩
  · intro h
    exact hlaw.mpr ⟨h.1, (hiff h.2.1).mpr h.2.2⟩

theorem law_iff_of_ahead (s : CString) (hs : 10 ∉ s.bytes) (hlong : ¬ Aligned ls n) :
    Law w message path ls.length n s.bytes
      ↔ Counted w path ∧ s.bytes.length ≤ readable ∧ Unseen ls n s.bytes := by
  have hlaw := law_iff message hfile hlock hopen hls s.no_nul hn hle
  have hsame := putGet_ahead (s := s.bytes) hls hn hle hlong
  constructor
  · intro h
    have hlen := h.short hfile hlock hopen hls s.no_nul hn hle
    obtain ⟨hcounted, hput, hget⟩ := hlaw.mp h
    refine ⟨hcounted, hlen, by rw [← hsame]; exact hput, ?_⟩
    refine (covered_iff hn hle hs hlen).mp (same_pieces_iff.mp fun i hi => ?_)
    by_cases hin : i + 1 = n
    · rw [show i = n - 1 by omega]
      exact hsame
    · have hpiece := hget (i + 1) (by omega) (by omega) hin
      rwa [Nat.add_sub_cancel] at hpiece
  · intro h
    obtain ⟨hcounted, hlen, hput, hcovered⟩ := h
    have hget := same_pieces_iff.mpr ((covered_iff hn hle hs hlen).mpr hcovered)
    refine hlaw.mpr ⟨hcounted, by rw [hsame]; exact hput, fun m hm hmle _ => ?_⟩
    exact hget (m - 1) (by omega)

/-- For all short texts at once, the file and the line number decide. -/
theorem law_all_iff : (∀ s : CString, 10 ∉ s.bytes → s.bytes.length ≤ readable →
    Law w message path ls.length n s.bytes) ↔ Counted w path ∧ Aligned ls n ∧ SameTails ls n := by
  constructor
  · intro h
    have hempty := h ⟨[], nofun⟩ (by decide) (by decide)
    by_cases haligned : Aligned ls n
    · exact ⟨hempty.counted, haligned, ((law_iff_of_aligned hfile hlock hopen hls hn hle _
        (by decide) haligned).mp hempty).2.2⟩
    · -- what is read is not two different texts
      have hone := h ⟨[65], by decide⟩ (by decide) (by decide)
      have hpiece := ((law_iff_of_ahead hfile hlock hopen hls hn hle _ (by decide)
        haligned).mp hempty).2.2.1
      have hpiece' := ((law_iff_of_ahead hfile hlock hopen hls hn hle _ (by decide)
        haligned).mp hone).2.2.1
      rw [hpiece] at hpiece'
      exact absurd hpiece' (by decide)
  · intro h s hs hlen
    exact (law_iff_of_aligned hfile hlock hopen hls hn hle s hs h.2.1).mpr ⟨h.1, hlen, h.2.2⟩

end Written

/-- The pieces behind a line that is read in one piece are the same. -/
theorem sameTails_of_short (hn : 1 ≤ n) (hle : n ≤ ls.length) (hl : 10 ∉ ls[n - 1])
    (hlen : ls[n - 1].length ≤ readable) : SameTails ls n := by
  intro i _
  unfold readable at hlen
  rw [List.drop_eq_getElem_cons (by omega), unlines_cons, fgets_line (n := 98) hl hlen,
    fgets_line (n := 254) hl (by omega)]

/-- Nothing is asked for behind the last line. -/
theorem sameTails_last (ls : List Bytes) : SameTails ls ls.length := by
  intro i hi
  omega

/-- **When the law holds**, for every file of lines, every line number of it and every text. -/
theorem putGet_iff (w : World) (message path : Bytes) (ls : List Bytes) (n : Nat) (s : CString)
    (hfile : w.fopenRead path = some (unlines ls)) (hlock : w.flock path = true)
    (hopen : w.fopenWrite path = true) (hls : AreLines ls) (hn : 1 ≤ n) (hle : n ≤ ls.length)
    (hs : 10 ∉ s.bytes) : Law w message path ls.length n s.bytes ↔
      Counted w path ∧ s.bytes.length ≤ readable ∧ (Aligned ls n ∧ SameTails ls n
        ∨ ¬ Aligned ls n ∧ Unseen ls n s.bytes) := by
  by_cases haligned : Aligned ls n
  · rw [law_iff_of_aligned hfile hlock hopen hls hn hle s hs haligned]
    simp [haligned]
  · rw [law_iff_of_ahead hfile hlock hopen hls hn hle s hs haligned]
    simp [haligned]

/-! ## §6. Sample files. -/

/-- The second of two lines. -/
theorem putGet_iff_two : Law (withFile (some (unlines [[97], [98]]))) [] [] 2 2 [120] :=
  (putGet_iff (withFile (some (unlines [[97], [98]]))) [] [] [[97], [98]] 2 ⟨[120], by decide⟩
    rfl rfl rfl (by unfold AreLines; decide) (by decide) (by decide) (by decide)).mpr
    ⟨withFile_counted [] (by decide), by decide, .inl ⟨by unfold Aligned; decide, sameTails_last _⟩⟩

/-- 99 bytes. -/
def longLine : Bytes := List.replicate 99 97

/-- **Behind a line of 99 bytes** the new second line is read as an empty one. -/
theorem second_line_missed : ¬ ∀ (w : World) (message path : Bytes) (ls : List Bytes) (n : Nat)
    (s : CString), w.fopenRead path = some (unlines ls) → w.flock path = true →
      w.fopenWrite path = true → AreLines ls → 1 ≤ n → n ≤ ls.length → 10 ∉ s.bytes →
      Law w message path ls.length n s.bytes := by
  intro hclaim
  have hlaw := hclaim (withFile (some (unlines [longLine, [98]]))) [] [] [longLine, [98]] 2
    ⟨[120], by decide⟩ rfl rfl rfl (by unfold AreLines; decide) (by decide) (by decide) (by decide)
  have hput := ((law_iff [] rfl rfl rfl (by unfold AreLines; decide) (by decide) (by decide)
    (by decide)).mp hlaw).2.1
  have hread : (lines 99 (replaced [longLine, [98]] 2 [120]))[1]? = some [10] := by decide +kernel
  rw [show 2 - 1 = 1 from rfl, hread] at hput
  exact absurd hput (by decide)

end SystemOS.FileServer.PutGet
