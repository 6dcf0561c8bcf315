/-
  SystemOS.Lib.Buffers — writing strings into a buffer whose contents are unknown.

  A buffer is the bytes from its address on.  `strcpy` and `sprintf` write a string and its
  terminator at the front; `strcat` writes behind the string that the buffer holds, whatever that
  is.

  Key results:
    * `seen_strcpy`   — what a reader of the first `n` bytes sees of a copied string does not
      depend on the buffer.
    * `strcats_depend` — what it sees of strings that were only appended always does.
-/
import Mathlib.Data.List.TakeWhile
import SystemOS.Lib.Lines

namespace SystemOS.Lib.Buffers

open SystemOS.Lib.Lines

/-- `strcpy(b, s)`. -/
def strcpy (b s : Bytes) : Bytes := s ++ 0 :: b.drop (s.length + 1)

/-- `strcat(b, s)`. -/
def strcat (b s : Bytes) : Bytes := cstr b ++ strcpy (b.drop (cstr b).length) s

/-- Appending several strings. -/
def strcats (b : Bytes) (ss : List Bytes) : Bytes := ss.foldl strcat b

/-- What a reader of the first `n` bytes takes for the string. -/
def seen (n : Nat) (b : Bytes) : Bytes := cstr (b.take n)

theorem cstr_append_nul (s t : Bytes) : cstr (s ++ 0 :: t) = cstr s := by
  induction s with
  | nil => rfl
  | cons c s ih =>
    unfold cstr at ih ⊢
    rw [List.cons_append]
    by_cases hc : c = 0
    · subst hc
      rfl
    · rw [List.takeWhile_cons_of_pos (by simpa using hc),
        List.takeWhile_cons_of_pos (by simpa using hc), ih]

/-- **A copied string hides what the buffer held.** -/
theorem seen_strcpy (n : Nat) (b s : Bytes) : seen n (strcpy b s) = cstr (s.take n) := by
  unfold seen strcpy
  rcases Nat.lt_or_ge s.length n with hlt | hge
  · obtain ⟨k, hk⟩ := Nat.exists_eq_add_of_lt hlt
    rw [List.take_append, hk, show s.length + k + 1 - s.length = k + 1 by omega, List.take_succ_cons,
      cstr_append_nul, List.take_of_length_le (by omega)]
  · rw [List.take_append_of_le_length hge]

theorem cstr_of_no_nul {s : Bytes} (h : 0 ∉ s) : cstr s = s := by
  refine List.takeWhile_eq_self_iff.mpr fun c hc => ?_
  simpa using ne_of_mem_of_not_mem hc h

/-- Appending appends. -/
theorem cstr_strcat (b : Bytes) {s : Bytes} (h : 0 ∉ s) : cstr (strcat b s) = cstr b ++ s := by
  have hfront : 0 ∉ cstr b := fun hmem => by simpa using List.mem_takeWhile_imp hmem
  unfold strcat strcpy
  rw [← List.append_assoc, cstr_append_nul, cstr_of_no_nul]
  exact fun hmem => (List.mem_append.mp hmem).elim hfront h

theorem cstr_strcats {ss : List Bytes} : ∀ {b : Bytes}, (∀ s ∈ ss, 0 ∉ s) →
    cstr (strcats b ss) = cstr b ++ ss.flatten := by
  induction ss with
  | nil => exact fun _ => (List.append_nil _).symm
  | cons s ss ih =>
    intro b h
    show cstr (strcats (strcat b s) ss) = _
    rw [ih fun t ht => h t (List.mem_cons_of_mem s ht), cstr_strcat b (h s List.mem_cons_self),
      List.append_assoc, List.flatten_cons]

/-! ## What appended strings show of the buffer. -/

theorem head_strcats {c : UInt8} (hc : c ≠ 0) (ss : List Bytes) : ∀ t : Bytes,
    (strcats (c :: t) ss).head? = some c := by
  induction ss with
  | nil => exact fun _ => rfl
  | cons s ss ih =>
    intro t
    have hfirst : strcat (c :: t) s = c :: strcat t s := by
      unfold strcat cstr
      rw [List.takeWhile_cons_of_pos (by simpa using hc)]
      rfl
    show (strcats (strcat (c :: t) s) ss).head? = some c
    rw [hfirst]
    exact ih _

theorem head_seen {n : Nat} {b : Bytes} {c : UInt8} (hc : c ≠ 0) (hn : 0 < n) :
    (seen n b).head? = some c ↔ b.head? = some c := by
  obtain ⟨n, rfl⟩ := Nat.exists_eq_succ_of_ne_zero (Nat.pos_iff_ne_zero.mp hn)
  cases b with
  | nil => exact Iff.rfl
  | cons d t =>
    unfold seen cstr
    rw [List.take_succ_cons]
    by_cases hd : d = 0
    · subst hd
      rw [List.takeWhile_cons_of_neg (by simp)]
      simpa using hc.symm
    · rw [List.takeWhile_cons_of_pos (by simpa using hd)]
      rfl

/-- **Strings that are only appended never hide what the buffer held.** -/
theorem strcats_depend {n : Nat} (hn : 0 < n) (ss : List Bytes) :
    ∃ b b' : Bytes, b.length = n ∧ b'.length = n ∧ seen n (strcats b ss) ≠ seen n (strcats b' ss) := by
  -- the first byte of the one buffer is not what the appended strings start with in the other
  obtain ⟨c, hc, hne⟩ : ∃ c : UInt8, c ≠ 0
      ∧ (strcats (List.replicate n 0) ss).head? ≠ some c := by
    by_cases h1 : (strcats (List.replicate n 0) ss).head? = some 1
    · exact ⟨2, by decide, by rw [h1]; decide⟩
    · exact ⟨1, by decide, h1⟩
  refine ⟨List.replicate n 0, c :: List.replicate (n - 1) 0, List.length_replicate, ?_, fun heq => ?_⟩
  · rw [List.length_cons, List.length_replicate]
    omega
  · refine hne ((head_seen hc hn).mp ?_)
    rw [heq, head_seen hc hn]
    exact head_strcats hc ss _

end SystemOS.Lib.Buffers
