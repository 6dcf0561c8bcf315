/-
  SystemOS.Lib.TextLines — the lines of a text file, whatever buffer it is read through.

  A file is cut at its newlines.  The last line may lack its newline, and then it is a line all the
  same.

  Key results:
    * `textLines_append`  — a line appended to a file whose lines have their newlines.
    * `textLines_flatten` — the lines hold the bytes of the file, but for the newlines.
    * `textLines_length`  — how many lines there are.
    * `textLines_unlines` — the lines of a file made of lines.
-/
import SystemOS.Lib.Pieces

namespace SystemOS.Lib.Lines

/-- The lines of a file, without their newlines. -/
def textLines (bs : Bytes) : List Bytes :=
  let parts := bs.splitOn 10
  if parts.getLast? = some [] then parts.dropLast else parts

/-- Every line has its newline. -/
def Ended (bs : Bytes) : Prop := bs = [] ∨ bs.getLast? = some 10

instance (bs : Bytes) : Decidable (Ended bs) :=
  inferInstanceAs (Decidable (bs = [] ∨ bs.getLast? = some 10))

variable {bs s l : Bytes} {b : UInt8}

/-! ## §1. Cutting at newlines. -/

theorem splitOn_length (bs : Bytes) : (bs.splitOn 10).length = bs.count 10 + 1 := by
  induction bs with
  | nil => rfl
  | cons b bs ih =>
    rw [List.splitOn_cons_eq_if_modifyHead, List.count_cons]
    split
    · rw [List.length_cons, ih]
    · rw [List.length_modifyHead, ih, Nat.add_zero]

theorem splitOn_flatten (bs : Bytes) : (bs.splitOn 10).flatten = bs.filter (· ≠ 10) := by
  induction bs with
  | nil => rfl
  | cons b bs ih =>
    obtain ⟨part, parts, hparts⟩ := List.exists_cons_of_ne_nil (List.splitOn_ne_nil 10 bs)
    rw [List.splitOn_cons_eq_if_modifyHead, List.filter_cons, ← ih, hparts]
    by_cases hb : b = 10
    · simp [hb]
    · simp [hb]

/-- A byte other than the newline ends up in the last part. -/
theorem splitOn_last (hb : b ≠ 10) (bs : Bytes) :
    ∃ front part, (bs ++ [b]).splitOn 10 = front ++ [part ++ [b]] := by
  induction bs with
  | nil =>
    refine ⟨[], [], ?_⟩
    show [b].splitOn 10 = [[b]]
    exact List.splitOn_eq_singleton (by simpa using hb.symm)
  | cons c bs ih =>
    obtain ⟨front, part, hsplit⟩ := ih
    rw [List.cons_append, List.splitOn_cons_eq_if_modifyHead, hsplit]
    split
    · exact ⟨[] :: front, part, rfl⟩
    · cases front with
      | nil => exact ⟨[], c :: part, rfl⟩
      | cons p front => exact ⟨(c :: p) :: front, part, rfl⟩

/-! ## §2. Lines. -/

theorem textLines_newline (bs : Bytes) : textLines (bs ++ [10]) = bs.splitOn 10 := by
  have hsplit : (bs ++ [10]).splitOn 10 = bs.splitOn 10 ++ [[]] :=
    List.splitOn_append_cons_self bs []
  unfold textLines
  simp [hsplit]

theorem textLines_open (hb : b ≠ 10) (bs : Bytes) :
    textLines (bs ++ [b]) = (bs ++ [b]).splitOn 10 := by
  obtain ⟨front, part, hsplit⟩ := splitOn_last hb bs
  unfold textLines
  simp [hsplit]

/-- A file is empty, or its last line has its newline, or it has not. -/
theorem ended_cases (bs : Bytes) :
    bs = [] ∨ (∃ cs, bs = cs ++ [10]) ∨ ∃ cs b, b ≠ 10 ∧ bs = cs ++ [b] := by
  rcases List.eq_nil_or_concat bs with hnil | ⟨cs, b, rfl⟩
  · exact .inl hnil
  · by_cases hb : b = 10
    · rw [hb]
      exact .inr (.inl ⟨cs, by simp⟩)
    · exact .inr (.inr ⟨cs, b, hb, by simp⟩)

theorem ended_newline (bs : Bytes) : Ended (bs ++ [10]) := .inr List.getLast?_concat

theorem not_ended_open (hb : b ≠ 10) (bs : Bytes) : ¬ Ended (bs ++ [b]) := by
  intro h
  rcases h with h | h
  · exact absurd h (by simp)
  · rw [List.getLast?_concat] at h
    exact hb (Option.some.inj h)

/-- **A line appended to a file whose lines have their newlines.** -/
theorem textLines_append (hended : Ended bs) (hs : 10 ∉ s) :
    textLines (bs ++ (s ++ [10])) = textLines bs ++ [s] := by
  rw [← List.append_assoc, textLines_newline]
  rcases ended_cases bs with rfl | ⟨cs, rfl⟩ | ⟨cs, b, hb, rfl⟩
  · exact List.splitOn_eq_singleton hs
  · rw [textLines_newline, List.append_assoc, List.singleton_append,
      List.splitOn_append_cons_self, List.splitOn_eq_singleton hs]
  · exact absurd hended (not_ended_open hb cs)

/-- **The lines hold the bytes of the file**, but for the newlines. -/
theorem textLines_flatten (bs : Bytes) : (textLines bs).flatten = bs.filter (· ≠ 10) := by
  rcases ended_cases bs with rfl | ⟨cs, rfl⟩ | ⟨cs, b, hb, rfl⟩
  · rfl
  · rw [textLines_newline, splitOn_flatten, List.filter_append]
    simp
  · rw [textLines_open hb, splitOn_flatten]

theorem textLines_length (bs : Bytes) :
    (textLines bs).length = bs.count 10 + if Ended bs then 0 else 1 := by
  rcases ended_cases bs with rfl | ⟨cs, rfl⟩ | ⟨cs, b, hb, rfl⟩
  · rfl
  · rw [textLines_newline, splitOn_length, if_pos (ended_newline cs), List.count_append]
    rfl
  · rw [textLines_open hb, splitOn_length, if_neg (not_ended_open hb cs)]

theorem textLines_no_newline (h : l ∈ textLines bs) : 10 ∉ l := by
  intro hmem
  have hflat : (10 : UInt8) ∈ (textLines bs).flatten := List.mem_flatten.mpr ⟨l, h, hmem⟩
  rw [textLines_flatten, List.mem_filter] at hflat
  exact absurd hflat.2 (by decide)

/-- The end of a file behind a newline. -/
theorem ended_behind (bs t : Bytes) : Ended (bs ++ [10] ++ t) ↔ Ended t := by
  rcases ended_cases t with rfl | ⟨cs, rfl⟩ | ⟨cs, b, hb, rfl⟩
  · rw [List.append_nil]
    exact iff_of_true (ended_newline bs) (.inl rfl)
  · rw [← List.append_assoc]
    exact iff_of_true (ended_newline _) (ended_newline cs)
  · rw [← List.append_assoc]
    exact iff_of_false (not_ended_open hb _) (not_ended_open hb cs)

/-! ## §3. Files made of lines. -/

theorem textLines_cons (hl : 10 ∉ l) (bs : Bytes) : textLines (l ++ 10 :: bs) = l :: textLines bs := by
  obtain ⟨part, parts, hparts⟩ := List.exists_cons_of_ne_nil (List.splitOn_ne_nil 10 bs)
  have hsplit : (l ++ 10 :: bs).splitOn 10 = l :: bs.splitOn 10 := by
    rw [List.splitOn_append_cons_self, List.splitOn_eq_singleton hl, List.singleton_append]
  unfold textLines
  rw [hsplit, hparts]
  simp only [List.getLast?_cons_cons, List.dropLast_cons_cons]
  split <;> rfl

theorem textLines_rest (hs : 10 ∉ s) : textLines s = if s = [] then [] else [s] := by
  unfold textLines
  rw [List.splitOn_eq_singleton hs]
  by_cases hnil : s = []
  · subst hnil
    rfl
  · rw [if_neg hnil]
    exact if_neg fun h => hnil (Option.some.inj h)

/-- **The lines of a file made of lines**, and of what is behind the last newline. -/
theorem textLines_unlines {ls : List Bytes} (hls : ∀ l ∈ ls, 10 ∉ l) (hs : 10 ∉ s) :
    textLines (unlines ls ++ s) = ls ++ if s = [] then [] else [s] := by
  induction ls with
  | nil => exact textLines_rest hs
  | cons l ls ih =>
    obtain ⟨hl, hls⟩ := List.forall_mem_cons.mp hls
    rw [unlines_cons, List.append_assoc, List.cons_append, textLines_cons hl, ih hls]
    rfl

/-- Every file is made of lines. -/
theorem exists_unlines (bs : Bytes) :
    ∃ ls s, bs = unlines ls ++ s ∧ (∀ l ∈ ls, 10 ∉ l) ∧ 10 ∉ s := by
  induction bs with
  | nil => exact ⟨[], [], rfl, nofun, List.not_mem_nil⟩
  | cons b bs ih =>
    obtain ⟨ls, s, rfl, hls, hs⟩ := ih
    by_cases hb : b = 10
    · subst hb
      exact ⟨[] :: ls, s, rfl, List.forall_mem_cons.mpr ⟨List.not_mem_nil, hls⟩, hs⟩
    · cases ls with
      | nil => exact ⟨[], b :: s, rfl, nofun, fun h => (List.mem_cons.mp h).elim (hb ∘ Eq.symm) hs⟩
      | cons l ls =>
        obtain ⟨hl, hls⟩ := List.forall_mem_cons.mp hls
        refine ⟨(b :: l) :: ls, s, rfl, List.forall_mem_cons.mpr ⟨fun h => ?_, hls⟩, hs⟩
        exact (List.mem_cons.mp h).elim (hb ∘ Eq.symm) hl

/-- The last line has its newline when nothing is behind it. -/
theorem ended_unlines (ls : List Bytes) (hs : 10 ∉ s) : Ended (unlines ls ++ s) ↔ s = [] := by
  constructor
  · intro h
    rcases List.eq_nil_or_concat s with hnil | ⟨cs, b, rfl⟩
    · exact hnil
    · have hb : b ≠ 10 := fun heq => hs (by rw [heq]; simp)
      rw [List.concat_eq_append, ← List.append_assoc] at h
      exact absurd h (not_ended_open hb _)
  · rintro rfl
    rw [List.append_nil]
    rcases List.eq_nil_or_concat ls with rfl | ⟨ls', l, rfl⟩
    · exact .inl rfl
    · rw [List.concat_eq_append, unlines_append, unlines_cons]
      show Ended (unlines ls' ++ (l ++ [10]))
      rw [← List.append_assoc]
      exact ended_newline _

end SystemOS.Lib.Lines
