/-
  SystemOS.Lib.Pieces — one file read through buffers of different sizes.

  A call of `fgets` returns a piece: a line with its newline, or as much of it as fits.  Two loops
  agree on the pieces while the lines fit into the smaller buffer; a longer line puts the loop with
  the smaller buffer ahead, and it stays ahead.

  Key results:
    * `lines_flatten`        — the pieces are the file.
    * `lines_unlines`        — lines that fit are read as they are.
    * `firstComplete_pieces` — the pieces of a large buffer hold as many complete small ones,
    * `firstComplete_long`   — and one more if the first of them is long.
-/
import SystemOS.Lib.Lines

namespace SystemOS.Lib.Lines

variable {n k j i : Nat} {bs l u t line : Bytes} {b : UInt8}

/-! ## §1. The bytes of the pieces. -/

theorem fgets_bytes (n : Nat) (bs : Bytes) : (fgets n bs).1 ++ (fgets n bs).2 = bs := by
  induction n generalizing bs with
  | zero => rfl
  | succ n ih =>
    cases bs with
    | nil => rfl
    | cons b bs =>
      unfold fgets
      split
      · rfl
      · exact congrArg (b :: ·) (ih bs)

theorem fgets_length (n : Nat) (bs : Bytes) : (fgets n bs).1.length ≤ n := by
  induction n generalizing bs with
  | zero => exact Nat.le_refl 0
  | succ n ih =>
    cases bs with
    | nil => exact Nat.zero_le _
    | cons b bs =>
      unfold fgets
      split
      · exact Nat.succ_le_succ (Nat.zero_le n)
      · exact Nat.succ_le_succ (ih bs)

theorem fgets_ne_nil (h : bs ≠ []) : (fgets (n + 1) bs).1 ≠ [] := by
  cases bs with
  | nil => exact absurd rfl h
  | cons b bs =>
    unfold fgets
    split
    · exact List.cons_ne_nil b []
    · exact List.cons_ne_nil b _

/-- A piece has its newline at the end. -/
theorem fgets_newline (h : (fgets n bs).1 = u ++ t) (ht : t ≠ []) : 10 ∉ u := by
  induction n generalizing bs u with
  | zero =>
    rw [(List.append_eq_nil_iff.mp h.symm).1]
    exact List.not_mem_nil
  | succ n ih =>
    cases u with
    | nil => exact List.not_mem_nil
    | cons c u =>
      cases bs with
      | nil => cases h
      | cons b bs =>
        unfold fgets at h
        split at h
        · obtain ⟨_, hnil⟩ := List.cons.inj h
          exact absurd (List.append_eq_nil_iff.mp hnil.symm).2 ht
        · next hb =>
          obtain ⟨rfl, htail⟩ := List.cons.inj h
          rw [List.mem_cons, not_or]
          exact ⟨fun heq => hb heq.symm, ih htail⟩

/-- Reading within a run without newline. -/
theorem fgets_run (hu : 10 ∉ u) (hk : k ≤ u.length) (t : Bytes) :
    fgets k (u ++ t) = (u.take k, u.drop k ++ t) := by
  induction u generalizing k with
  | nil =>
    rw [Nat.le_zero.mp hk]
    rfl
  | cons c u ih =>
    cases k with
    | zero => rfl
    | succ k =>
      rw [List.mem_cons, not_or] at hu
      rw [List.cons_append, fgets, if_neg fun heq => hu.1 heq.symm,
        ih hu.2 (Nat.le_of_succ_le_succ hk)]
      rfl

/-- Reading a line that fits. -/
theorem fgets_line (hl : 10 ∉ l) (hlen : l.length ≤ n) (t : Bytes) :
    fgets (n + 1) (l ++ 10 :: t) = (l ++ [10], t) := by
  induction l generalizing n with
  | nil =>
    rw [List.nil_append, fgets, if_pos rfl]
    rfl
  | cons c l ih =>
    rw [List.mem_cons, not_or] at hl
    cases n with
    | zero => exact absurd hlen (Nat.not_succ_le_zero _)
    | succ n =>
      rw [List.cons_append, fgets, if_neg fun heq => hl.1 heq.symm,
        ih hl.2 (Nat.le_of_succ_le_succ hlen)]
      rfl

/-- Induction over the calls of `fgets`. -/
theorem fgets_induction {P : Bytes → Prop} (n : Nat) (hnil : P [])
    (hcons : ∀ bs, bs ≠ [] → P (fgets (n + 1) bs).2 → P bs) (bs : Bytes) : P bs := by
  induction hlen : bs.length using Nat.strongRecOn generalizing bs with
  | _ len ih =>
    by_cases hne : bs = []
    · rw [hne]
      exact hnil
    · have hlt := fgets_rest_length (n := n) hne
      exact hcons bs hne (ih _ (by omega) _ rfl)

/-- **The pieces are the file.** -/
theorem lines_flatten (n : Nat) (bs : Bytes) : (lines (n + 1) bs).flatten = bs := by
  induction bs using fgets_induction n with
  | hnil => rfl
  | hcons bs hne ih =>
    rw [lines_cons hne, List.flatten_cons, ih]
    exact fgets_bytes (n + 1) bs

theorem lines_spec (h : line ∈ lines (n + 1) bs) :
    line ≠ [] ∧ line.length ≤ n + 1 ∧ ∀ u t, line = u ++ t → t ≠ [] → 10 ∉ u := by
  induction bs using fgets_induction n with
  | hnil => cases h
  | hcons bs hne ih =>
    rw [lines_cons hne, List.mem_cons] at h
    rcases h with rfl | h
    · exact ⟨fgets_ne_nil hne, fgets_length _ bs, fun u t => fgets_newline⟩
    · exact ih h

/-- The file in front of a piece, the piece, and the file behind it. -/
theorem lines_parts (h : i < (lines (n + 1) bs).length) :
    bs = ((lines (n + 1) bs).take i).flatten
      ++ ((lines (n + 1) bs)[i] ++ ((lines (n + 1) bs).drop (i + 1)).flatten) := by
  rw [← List.flatten_cons, ← List.drop_eq_getElem_cons h, ← List.flatten_append,
    List.take_append_drop, lines_flatten]

/-- The pieces behind the first ones are those of the file behind them. -/
theorem lines_drop (n i : Nat) (bs : Bytes) :
    lines (n + 1) ((lines (n + 1) bs).drop i).flatten = (lines (n + 1) bs).drop i := by
  induction i generalizing bs with
  | zero => rw [List.drop_zero, lines_flatten]
  | succ i ih =>
    by_cases hne : bs = []
    · rw [hne]
      rfl
    · rw [lines_cons hne, List.drop_succ_cons]
      exact ih _

/-! ## §2. Files made of lines. -/

/-- The file with these lines, each with its newline. -/
def unlines (ls : List Bytes) : Bytes := (ls.map (· ++ [10])).flatten

theorem unlines_cons (l : Bytes) (ls : List Bytes) : unlines (l :: ls) = l ++ 10 :: unlines ls := by
  unfold unlines
  rw [List.map_cons, List.flatten_cons, List.append_assoc]
  rfl

theorem unlines_ne_nil (l : Bytes) (ls : List Bytes) : unlines (l :: ls) ≠ [] := by
  rw [unlines_cons]
  exact List.append_ne_nil_of_right_ne_nil l (List.cons_ne_nil 10 _)

theorem unlines_append (ls ks : List Bytes) : unlines (ls ++ ks) = unlines ls ++ unlines ks := by
  unfold unlines
  rw [List.map_append, List.flatten_append]

/-- **Lines that fit are read as they are.** -/
theorem lines_unlines {ls : List Bytes} (h : ∀ l ∈ ls, 10 ∉ l ∧ l.length ≤ n) (t : Bytes) :
    lines (n + 1) (unlines ls ++ t) = ls.map (· ++ [10]) ++ lines (n + 1) t := by
  induction ls with
  | nil => rfl
  | cons l ls ih =>
    obtain ⟨hl, hls⟩ := List.forall_mem_cons.mp h
    have hne : l ++ 10 :: (unlines ls ++ t) ≠ [] := by simp
    rw [unlines_cons, List.append_assoc, List.cons_append, lines_cons hne, fgets_line hl.1 hl.2,
      ih hls]
    rfl

/-! ## §3. Complete pieces. -/

/-- What one more byte of buffer changes: nothing, or the next byte belongs to the piece. -/
theorem fgets_succ (h : complete (k + 1) (fgets (k + 1) bs).1 = true) :
    ((fgets k bs).1.getLast? = some 10 ∧ fgets k bs = fgets (k + 1) bs)
      ∨ (fgets k bs).1.length = k ∧ ∃ y, (fgets k bs).2 = y :: (fgets (k + 1) bs).2 := by
  induction k generalizing bs with
  | zero =>
    cases bs with
    | nil => exact absurd rfl (complete_ne_nil h)
    | cons b bs =>
      refine .inr ⟨rfl, b, ?_⟩
      rw [fgets, fgets]
      split <;> rfl
  | succ k ih =>
    cases bs with
    | nil => exact absurd rfl (complete_ne_nil h)
    | cons b bs =>
      by_cases hb : b = 10
      · left
        rw [fgets, fgets, if_pos hb, if_pos hb, hb]
        exact ⟨rfl, rfl⟩
      · rw [fgets, if_neg hb] at h
        rw [fgets, if_neg hb, fgets, if_neg hb]
        rcases ih (complete_tail hb h) with ⟨hlast, heq⟩ | ⟨hlen, y, hy⟩
        · left
          rw [heq] at hlast ⊢
          refine ⟨?_, rfl⟩
          show (b :: (fgets (k + 1) bs).1).getLast? = some 10
          rw [List.getLast?_cons, hlast]
          rfl
        · exact .inr ⟨congrArg (· + 1) hlen, y, hy⟩

theorem complete_of_length (h : line.length = n) : complete n line = true := by
  unfold complete
  rw [decide_eq_true h, Bool.true_or]

theorem complete_of_newline (h : line.getLast? = some 10) : complete n line = true := by
  unfold complete
  rw [decide_eq_true h, Bool.or_true]

theorem firstComplete_of_succ (h : firstComplete n (j + 1) bs = true) :
    firstComplete n j bs = true := by
  induction j generalizing bs with
  | zero => rfl
  | succ j ih =>
    rw [firstComplete, Bool.and_eq_true] at h ⊢
    exact ⟨h.1, ih h.2⟩

/-- There are as many pieces as complete ones. -/
theorem firstComplete_le (h : firstComplete (n + 1) j bs = true) :
    j ≤ (lines (n + 1) bs).length := by
  induction j generalizing bs with
  | zero => exact Nat.zero_le _
  | succ j ih =>
    rw [firstComplete, Bool.and_eq_true] at h
    rw [lines_cons (complete_ne_nil h.1), List.length_cons]
    exact Nat.succ_le_succ (ih h.2)

theorem firstComplete_newline (h : firstComplete (n + 1) j bs = true) :
    firstComplete (n + 1) (j + 1) (10 :: bs) = true := by
  rw [firstComplete, fgets, if_pos rfl, Bool.and_eq_true]
  exact ⟨complete_of_newline rfl, h⟩

/-- A byte in front costs no piece. -/
theorem firstComplete_cons (b : UInt8) (h : firstComplete (n + 1) j bs = true) :
    firstComplete (n + 1) j (b :: bs) = true := by
  induction j generalizing b bs with
  | zero => rfl
  | succ j ih =>
    by_cases hb : b = 10
    · rw [hb]
      exact firstComplete_newline (firstComplete_of_succ h)
    · rw [firstComplete, Bool.and_eq_true] at h ⊢
      rw [fgets, if_neg hb]
      rcases fgets_succ h.1 with ⟨hlast, heq⟩ | ⟨hlen, y, hy⟩
      · constructor
        · refine complete_of_newline ?_
          show (b :: (fgets n bs).1).getLast? = some 10
          rw [List.getLast?_cons, hlast]
          rfl
        · show firstComplete (n + 1) j (fgets n bs).2 = true
          rw [heq]
          exact h.2
      · -- the last byte of the piece moves on to the next one
        constructor
        · exact complete_of_length (congrArg (· + 1) hlen)
        · show firstComplete (n + 1) j (fgets n bs).2 = true
          rw [hy]
          exact ih y h.2

theorem firstComplete_append (u : Bytes) (h : firstComplete (n + 1) j bs = true) :
    firstComplete (n + 1) j (u ++ bs) = true := by
  induction u with
  | nil => exact h
  | cons b u ih => exact firstComplete_cons b ih

/-- Each line is at least one complete piece. -/
theorem firstComplete_line (l : Bytes) (h : firstComplete (n + 1) j bs = true) :
    firstComplete (n + 1) (j + 1) (l ++ 10 :: bs) = true :=
  firstComplete_append l (firstComplete_newline h)

theorem firstComplete_unlines (ls : List Bytes) (h : firstComplete (n + 1) j bs = true) :
    firstComplete (n + 1) (ls.length + j) (unlines ls ++ bs) = true := by
  induction ls with
  | nil =>
    rw [List.length_nil, Nat.zero_add]
    exact h
  | cons l ls ih =>
    rw [unlines_cons, List.length_cons, Nat.add_right_comm, List.append_assoc]
    exact firstComplete_line l ih

/-- A run without newline that fills the buffer is a complete piece and what is left of it. -/
theorem firstComplete_run (hu : 10 ∉ u) (hk : n + 1 ≤ u.length)
    (h : firstComplete (n + 1) j (u.drop (n + 1) ++ bs) = true) :
    firstComplete (n + 1) (j + 1) (u ++ bs) = true := by
  rw [firstComplete, fgets_run hu hk, Bool.and_eq_true]
  exact ⟨complete_of_length (by rw [List.length_take]; omega), h⟩

/-! ## §4. Two buffers. -/

/-- A complete piece is a line, or the end of one, or a full buffer without newline. -/
theorem complete_cases (h : complete k (fgets k bs).1 = true) :
    (∃ u, (fgets k bs).1 = u ++ [10] ∧ 10 ∉ u)
      ∨ (fgets k bs).1.length = k ∧ 10 ∉ (fgets k bs).1 := by
  by_cases hlast : (fgets k bs).1.getLast? = some 10
  · obtain ⟨u, hu⟩ := List.getLast?_eq_some_iff.mp hlast
    exact .inl ⟨u, hu, fgets_newline hu (List.cons_ne_nil 10 [])⟩
  · right
    unfold complete at h
    rw [decide_eq_false hlast, Bool.or_false, decide_eq_true_eq] at h
    refine ⟨h, fun hmem => hlast ?_⟩
    -- nothing stands behind the newline
    obtain ⟨u, t, hut⟩ := List.append_of_mem hmem
    cases t with
    | nil =>
      rw [hut]
      exact List.getLast?_concat
    | cons c t =>
      rw [show u ++ 10 :: c :: t = (u ++ [10]) ++ (c :: t) by simp] at hut
      exact absurd (List.mem_append_right u List.mem_cons_self)
        (fgets_newline hut (List.cons_ne_nil c t))

/-- A complete piece of a large buffer holds a complete piece of a small one. -/
theorem firstComplete_front (hk : n ≤ k) (hw : complete (k + 1) (fgets (k + 1) bs).1 = true)
    (h : firstComplete (n + 1) j t = true) :
    firstComplete (n + 1) (j + 1) ((fgets (k + 1) bs).1 ++ t) = true := by
  rcases complete_cases hw with ⟨u, hu, -⟩ | ⟨hlen, hrun⟩
  · rw [hu, List.append_assoc]
    exact firstComplete_line u h
  · exact firstComplete_run hrun (by omega) (firstComplete_append _ h)

/-- Two, if it is long and the large buffer has room for two small ones. -/
theorem firstComplete_long (hk : 2 * (n + 1) ≤ k + 1)
    (hw : complete (k + 1) (fgets (k + 1) bs).1 = true)
    (hlong : n + 1 < (fgets (k + 1) bs).1.length) (h : firstComplete (n + 1) j t = true) :
    firstComplete (n + 1) (j + 2) ((fgets (k + 1) bs).1 ++ t) = true := by
  rcases complete_cases hw with ⟨u, hu, hrun⟩ | ⟨hlen, hrun⟩
  · rw [hu, List.length_append, List.length_singleton] at hlong
    rw [hu, List.append_assoc]
    exact firstComplete_run hrun (by omega) (firstComplete_line _ h)
  · refine firstComplete_run hrun (by omega) (firstComplete_run ?_ ?_ (firstComplete_append _ h))
    · exact fun hmem => hrun (List.mem_of_mem_drop hmem)
    · rw [List.length_drop]
      omega

/-- **The complete pieces of a large buffer hold as many complete pieces of a small one.** -/
theorem firstComplete_pieces (hk : n ≤ k) (h : firstComplete (k + 1) i bs = true) :
    firstComplete (n + 1) i ((lines (k + 1) bs).take i).flatten = true := by
  induction i generalizing bs with
  | zero => rfl
  | succ i ih =>
    rw [firstComplete, Bool.and_eq_true] at h
    rw [lines_cons (complete_ne_nil h.1), List.take_succ_cons, List.flatten_cons]
    exact firstComplete_front hk h.1 (ih h.2)

end SystemOS.Lib.Lines
