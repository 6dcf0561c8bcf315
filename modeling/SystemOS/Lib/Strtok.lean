/-
  SystemOS.Lib.Strtok — one call of `strtok` at a time.

  `strtok d s` is the token at the front of the string `s` and what the next call goes on with;
  `strtok(NULL, …)` is a call with that rest, possibly with another delimiter.

  Key results:
    * `strtok_words` — successive calls with one delimiter return the words of the string.
    * `strtok_none`  — there is no token exactly when there are only delimiters.
    * `words_eq_splitOn` — the words are the non-empty pieces between delimiters.
    * `strtok_token` — the token in front of a delimiter.
-/
import Mathlib.Data.List.DropRight
import SystemOS.Lib.Strings

namespace SystemOS.Lib.Strtok

open SystemOS.Lib.Strings

/-- One call of `strtok`, with one delimiter. -/
def strtok (d : UInt8) (s : List UInt8) : Option (List UInt8) × List UInt8 :=
  match s.dropWhile (· == d) with
  | [] => (none, [])
  | c :: cs => (some (c :: cs.takeWhile (· != d)), (cs.dropWhile (· != d)).drop 1)

theorem strtok_delimiter (d : UInt8) (s : List UInt8) : strtok d (d :: s) = strtok d s := by
  unfold strtok
  rw [List.dropWhile_cons, if_pos (beq_self_eq_true d)]

theorem strtok_cons {d c : UInt8} (h : c ≠ d) (s : List UInt8) : strtok d (c :: s)
    = (some (c :: s.takeWhile (· != d)), (s.dropWhile (· != d)).drop 1) := by
  unfold strtok
  rw [List.dropWhile_cons, if_neg (by simpa using h)]

theorem words_delimiter (d : UInt8) (s : List UInt8) : words d (d :: s) = words d s := by
  rw [words, splitWords]
  dsimp only
  rw [if_pos rfl, if_pos rfl]
  rfl

/-- The front word goes up to the first delimiter. -/
theorem splitWords_eq (d : UInt8) (s : List UInt8) : splitWords d s
    = (s.takeWhile (· != d), words d ((s.dropWhile (· != d)).drop 1)) := by
  induction s with
  | nil => rfl
  | cons c cs ih =>
    rw [List.takeWhile_cons, List.dropWhile_cons]
    by_cases hc : c = d
    · subst hc
      rw [splitWords, if_neg (by simp), if_neg (by simp)]
      dsimp only
      rw [if_pos rfl]
      rfl
    · have hne : (c != d) = true := by simpa using hc
      rw [splitWords, if_pos hne, if_pos hne, ih]
      dsimp only
      rw [if_neg hc]

theorem words_cons {d c : UInt8} (h : c ≠ d) (s : List UInt8) : words d (c :: s)
    = (c :: s.takeWhile (· != d)) :: words d ((s.dropWhile (· != d)).drop 1) := by
  have hne : (c != d) = true := by simpa using h
  rw [words, splitWords_eq, List.takeWhile_cons, List.dropWhile_cons, if_pos hne, if_pos hne]
  dsimp only
  rw [if_neg (List.cons_ne_nil _ _)]

/-- Successive calls return the words of the string. -/
theorem strtok_words (d : UInt8) (s : List UInt8) :
    (strtok d s).1 = (words d s).head? ∧ words d (strtok d s).2 = (words d s).tail := by
  induction s with
  | nil => exact ⟨rfl, rfl⟩
  | cons c cs ih =>
    by_cases hc : c = d
    · subst hc
      rw [strtok_delimiter, words_delimiter]
      exact ih
    · rw [strtok_cons hc, words_cons hc]
      exact ⟨rfl, rfl⟩

/-- There is no token exactly when there are only delimiters. -/
theorem strtok_none (d : UInt8) (s : List UInt8) :
    (strtok d s).1 = none ↔ ∀ b ∈ s, b = d := by
  induction s with
  | nil => exact iff_of_true rfl nofun
  | cons c cs ih =>
    rw [List.forall_mem_cons]
    by_cases hc : c = d
    · subst hc
      rw [strtok_delimiter, ih]
      exact (and_iff_right rfl).symm
    · rw [strtok_cons hc]
      exact iff_of_false (Option.some_ne_none _) fun h => hc h.1

/-- What is left behind a token is shorter. -/
theorem strtok_rest_length {d : UInt8} {s t : List UInt8} (h : (strtok d s).1 = some t) :
    (strtok d s).2.length < s.length := by
  induction s with
  | nil => cases h
  | cons c cs ih =>
    by_cases hc : c = d
    · subst hc
      rw [strtok_delimiter] at h ⊢
      exact Nat.lt_succ_of_lt (ih h)
    · rw [strtok_cons hc]
      have hdrop := (List.dropWhile_sublist (· != d) (l := cs)).length_le
      simp only [List.length_drop, List.length_cons]
      omega

/-! The words, and the pieces between delimiters. -/

theorem splitOn_splitWords (d : UInt8) (s : List UInt8) :
    ∃ behind, s.splitOn d = (splitWords d s).1 :: behind
      ∧ behind.filter (· ≠ []) = (splitWords d s).2 := by
  induction s with
  | nil => exact ⟨[], List.splitOn_nil d, rfl⟩
  | cons c cs ih =>
    obtain ⟨behind, hsplit, hfilter⟩ := ih
    rw [List.splitOn_cons_eq_if_modifyHead, hsplit, splitWords]
    by_cases hc : c = d
    · -- the piece in front is a word unless it is empty
      refine ⟨(splitWords d cs).1 :: behind, by simp [hc], ?_⟩
      rw [List.filter_cons, hfilter]
      simp [hc]
    · exact ⟨behind, by simp [hc], by simpa [hc] using hfilter⟩

/-- The words are the non-empty pieces between delimiters. -/
theorem words_eq_splitOn (d : UInt8) (s : List UInt8) :
    words d s = (s.splitOn d).filter (· ≠ []) := by
  obtain ⟨behind, hsplit, hfilter⟩ := splitOn_splitWords d s
  rw [hsplit, List.filter_cons, hfilter, words]
  simp

/-- The words are not longer than the string. -/
theorem words_length (d : UInt8) (s : List UInt8) : (words d s).flatten.length ≤ s.length := by
  have hsplit : (splitWords d s).1.length + (splitWords d s).2.flatten.length ≤ s.length := by
    induction s with
    | nil => exact Nat.le_refl 0
    | cons c cs ih =>
      unfold splitWords
      dsimp only
      split
      · split
        · simp only [List.length_nil, List.length_cons]
          omega
        · simp only [List.length_nil, List.length_cons, List.flatten_cons, List.length_append]
          omega
      · simp only [List.length_cons]
        omega
  unfold words
  dsimp only
  split
  · omega
  · rw [List.flatten_cons, List.length_append]
    exact hsplit

theorem words_append (d : UInt8) (s t : List UInt8) :
    words d (s ++ d :: t) = words d s ++ words d t := by
  simp only [words_eq_splitOn, List.splitOn_append_cons_self, List.filter_append]

theorem words_word {d : UInt8} {s : List UInt8} (hne : s ≠ []) (hs : d ∉ s) :
    words d s = [s] := by
  rw [words_eq_splitOn, List.splitOn_eq_singleton hs]
  simp [hne]

variable {d : UInt8} {s t rest : List UInt8}

theorem ne_delimiter (ht : d ∉ t) : ∀ b ∈ t, (b != d) = true := fun b hb => by
  simpa using ne_of_mem_of_not_mem hb ht

/-- What stands in front of the first delimiter, and what begins there. -/
theorem front_token (ht : d ∉ t) : (t ++ d :: rest).takeWhile (· != d) = t
    ∧ (t ++ d :: rest).dropWhile (· != d) = d :: rest := by
  have hall := ne_delimiter ht
  rw [List.takeWhile_append_of_pos hall, List.dropWhile_append_of_pos hall,
    List.takeWhile_cons_of_neg (by simp), List.dropWhile_cons_of_neg (by simp), List.append_nil]
  exact ⟨rfl, rfl⟩

/-- **The token in front of a delimiter.** -/
theorem strtok_token (hne : t ≠ []) (ht : d ∉ t) :
    strtok d (t ++ d :: rest) = (some t, rest) := by
  obtain ⟨c, cs, rfl⟩ := List.exists_cons_of_ne_nil hne
  rw [List.mem_cons, not_or] at ht
  obtain ⟨hfront, hbehind⟩ := @front_token d cs rest ht.2
  rw [List.cons_append, strtok_cons (Ne.symm ht.1), hfront, hbehind]
  rfl

/-- The last token. -/
theorem strtok_last (hne : t ≠ []) (ht : d ∉ t) : (strtok d t).1 = some t := by
  rw [(strtok_words d t).1, words_word hne ht]
  rfl

/-- A token has no delimiter in it. -/
theorem not_mem_token (h : (strtok d s).1 = some t) : d ∉ t := by
  rw [(strtok_words d s).1] at h
  exact fun hmem => ((words_spec (List.mem_of_head? h)).2 d hmem).2 rfl

/-- The delimiters in front are skipped. -/
theorem strtok_dropWhile (d : UInt8) (s : List UInt8) :
    strtok d (s.dropWhile (· == d)) = strtok d s := by
  unfold strtok
  rw [List.dropWhile_idempotent]

end SystemOS.Lib.Strtok
