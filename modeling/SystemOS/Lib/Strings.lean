/-
  SystemOS.Lib.Strings — comparing NUL-terminated strings with bytes in memory.

  A C string is a list of bytes without NUL.  `strEq m a s` says that `strcmp` of the memory at `a`
  with `s` gives 0, `strnEq m a n s` the same for `strncmp`, and `padded n s` is what `strncpy`
  writes into an array of `n` bytes.

  Key results:
    * `strEq_congr`    — a comparison reads no further than the first NUL in memory.
    * `strEq_unique`   — the memory at an address is one string.
    * `strEq_of_strnEq`, `strEq_padded` — a name cut to `n` bytes is found again by both.
    * `words_spec`     — the words that `strtok` returns.
-/
import SystemOS.Lib.ByteMemory

namespace SystemOS.Lib.Strings

open SystemOS.Lib.ByteMemory

/-! ## §1. Comparisons. -/

/-- A string as C programs pass it: bytes without the terminator. -/
structure CString where
  bytes : List UInt8
  no_nul : 0 ∉ bytes

/-- `strcmp(a, s) == 0`. -/
def strEq (m : Mem) : Nat → List UInt8 → Bool
  | a, [] => m a == 0
  | a, c :: cs => m a == c && strEq m (a + 1) cs

/-- `strncmp(a, s, n) == 0`. -/
def strnEq (m : Mem) : Nat → Nat → List UInt8 → Bool
  | _, 0, _ => true
  | a, _ + 1, [] => m a == 0
  | a, n + 1, c :: cs => m a == c && strnEq m (a + 1) n cs

/-- The `n` bytes that `strncpy` writes. -/
def padded (n : Nat) (s : List UInt8) : List UInt8 := (s ++ List.replicate n 0).take n

@[simp] theorem padded_length (n : Nat) (s : List UInt8) : (padded n s).length = n := by
  simp [padded]

variable {m m' : Mem}

/-- A comparison reads no further than the first NUL in memory. -/
theorem strEq_congr {s : List UInt8} (hs : 0 ∉ s) : ∀ {a k : Nat},
    (∀ x, a ≤ x → x ≤ a + k → m' x = m x) → m (a + k) = 0 → strEq m' a s = strEq m a s := by
  induction s with
  | nil =>
    intro a k h _
    unfold strEq
    rw [h a (Nat.le_refl a) (Nat.le_add_right a k)]
  | cons c cs ih =>
    intro a k h hk
    rw [List.mem_cons, not_or] at hs
    unfold strEq
    rw [h a (Nat.le_refl a) (Nat.le_add_right a k)]
    by_cases hc : m a = c
    · cases k with
      | zero =>
        -- the NUL is here, and a byte of `s` is not NUL
        exact absurd (hc.symm.trans hk).symm hs.1
      | succ k =>
        rw [ih hs.2 (k := k) (fun x h1 h2 => h x (by omega) (by omega))
          (by rw [← hk]; congr 1; omega)]
    · -- the comparison ends at the first difference
      have hne : (m a == c) = false := by simpa using hc
      rw [hne, Bool.false_and, Bool.false_and]

/-- A comparison reads upwards. -/
theorem strEq_congr_up {s : List UInt8} : ∀ {a : Nat}, (∀ x, a ≤ x → m' x = m x) →
    strEq m' a s = strEq m a s := by
  induction s with
  | nil =>
    intro a h
    unfold strEq
    rw [h a (Nat.le_refl a)]
  | cons c cs ih =>
    intro a h
    unfold strEq
    rw [h a (Nat.le_refl a), ih fun x hx => h x (by omega)]

theorem strEq_nil {a : Nat} (h : m a = 0) : strEq m a [] = true := by
  unfold strEq
  rw [h]
  rfl

theorem strEq_head {a : Nat} {c : UInt8} {cs : List UInt8} (h : strEq m a (c :: cs) = true) :
    m a = c := by
  unfold strEq at h
  rw [Bool.and_eq_true] at h
  exact eq_of_beq h.1

/-- The empty string is not a non-empty one. -/
theorem strEq_of_nul {a : Nat} {s : List UInt8} (hs : 0 ∉ s) (hne : s ≠ []) (h : m a = 0) :
    strEq m a s = false := by
  cases s with
  | nil => exact absurd rfl hne
  | cons c cs =>
    by_contra hcon
    have := strEq_head (by simpa using hcon)
    rw [h] at this
    exact hs (this ▸ List.mem_cons_self)

/-- **The memory at an address is one string.** -/
theorem strEq_unique {s : List UInt8} : ∀ {a : Nat} {t : List UInt8}, 0 ∉ s → 0 ∉ t →
    strEq m a s = true → strEq m a t = true → s = t := by
  induction s with
  | nil =>
    intro a t _ ht h h'
    cases t with
    | nil => rfl
    | cons d ds =>
      have h0 : m a = 0 := eq_of_beq h
      rw [strEq_of_nul ht (List.cons_ne_nil d ds) h0] at h'
      cases h'
  | cons c cs ih =>
    intro a t hs ht h h'
    cases t with
    | nil =>
      have h0 : m a = 0 := eq_of_beq h'
      rw [strEq_of_nul hs (List.cons_ne_nil c cs) h0] at h
      cases h
    | cons d ds =>
      have hc := strEq_head h
      have hd := strEq_head h'
      unfold strEq at h h'
      rw [Bool.and_eq_true] at h h'
      rw [List.mem_cons, not_or] at hs ht
      rw [← hc, ← hd, ih hs.2 ht.2 h.2 h'.2]

/-- A match of the first `n` bytes, with a NUL behind them, is a match with the name cut to `n`
    bytes. -/
theorem strEq_of_strnEq {s : List UInt8} : ∀ {a n : Nat}, strnEq m a n s = true → m (a + n) = 0 →
    strEq m a (s.take n) = true := by
  induction s with
  | nil =>
    intro a n h hn
    rw [List.take_nil]
    cases n with
    | zero => exact strEq_nil hn
    | succ n => exact h
  | cons c cs ih =>
    intro a n h hn
    cases n with
    | zero => exact strEq_nil hn
    | succ n =>
      unfold strnEq at h
      rw [Bool.and_eq_true] at h
      rw [List.take_succ_cons]
      unfold strEq
      rw [h.1, ih h.2 (by rw [← hn]; congr 1; omega)]
      rfl

/-- Memory that is the name cut to `n` bytes matches it in the first `n` bytes. -/
theorem strnEq_of_strEq {s : List UInt8} : ∀ {a n : Nat}, strEq m a (s.take n) = true →
    strnEq m a n s = true := by
  induction s with
  | nil =>
    intro a n h
    cases n with
    | zero => rfl
    | succ n => exact h
  | cons c cs ih =>
    intro a n h
    cases n with
    | zero => rfl
    | succ n =>
      rw [List.take_succ_cons] at h
      unfold strEq at h
      rw [Bool.and_eq_true] at h
      unfold strnEq
      rw [h.1, ih h.2]
      rfl

/-- Memory that holds `padded n s`, with a NUL behind it, is the string `s.take n`. -/
theorem strEq_padded {s : List UInt8} : ∀ {a n : Nat},
    (∀ i < n, (padded n s)[i]? = some (m (a + i))) → m (a + n) = 0 →
      strEq m a (s.take n) = true := by
  induction s with
  | nil =>
    intro a n h hn
    rw [List.take_nil]
    cases n with
    | zero => exact strEq_nil hn
    | succ n =>
      -- the first byte is padding
      have h0 := h 0 (Nat.succ_pos n)
      simp only [padded, List.nil_append, List.take_replicate, List.getElem?_replicate] at h0
      rw [if_pos (by omega), Nat.add_zero] at h0
      exact strEq_nil (Option.some.inj h0).symm
  | cons c cs ih =>
    intro a n h hn
    cases n with
    | zero => exact strEq_nil hn
    | succ n =>
      rw [List.take_succ_cons]
      unfold strEq
      have h0 : some c = some (m a) := h 0 (Nat.succ_pos n)
      have hrest : strEq m (a + 1) (cs.take n) = true := by
        refine ih (fun i hi => ?_) (by rw [← hn]; congr 1; omega)
        have hnext := h (i + 1) (Nat.succ_lt_succ hi)
        rw [show a + (i + 1) = a + 1 + i by omega] at hnext
        rw [← hnext, padded, padded, List.getElem?_take_of_lt hi,
            List.getElem?_take_of_lt (Nat.succ_lt_succ hi), List.cons_append,
            List.getElem?_cons_succ]
        -- the padding is one byte longer than needed
        rcases Nat.lt_or_ge i cs.length with hlt | hge
        · rw [List.getElem?_append_left hlt, List.getElem?_append_left hlt]
        · rw [List.getElem?_append_right hge, List.getElem?_append_right hge,
              List.getElem?_replicate, List.getElem?_replicate, if_pos (by omega),
              if_pos (by omega)]
      rw [← Option.some.inj h0, hrest]
      simp

/-! ## §2. Words. -/

/-- The word at the front of `s` and the non-empty words behind it, `d` being the delimiter. -/
def splitWords (d : UInt8) : List UInt8 → List UInt8 × List (List UInt8)
  | [] => ([], [])
  | c :: cs =>
    let (w, ws) := splitWords d cs
    if c = d then ([], if w = [] then ws else w :: ws) else (c :: w, ws)

/-- What successive calls of `strtok` return: the non-empty words between delimiters. -/
def words (d : UInt8) (s : List UInt8) : List (List UInt8) :=
  let (w, ws) := splitWords d s
  if w = [] then ws else w :: ws

theorem splitWords_spec (d : UInt8) : ∀ s : List UInt8,
    (∀ b ∈ (splitWords d s).1, b ∈ s ∧ b ≠ d)
      ∧ ∀ w ∈ (splitWords d s).2, w ≠ [] ∧ ∀ b ∈ w, b ∈ s ∧ b ≠ d
  | [] => ⟨nofun, nofun⟩
  | c :: cs => by
      obtain ⟨hfront, hrest⟩ := splitWords_spec d cs
      have hmem : ∀ {b : UInt8}, b ∈ cs ∧ b ≠ d → b ∈ c :: cs ∧ b ≠ d := fun hb =>
        ⟨List.mem_cons_of_mem c hb.1, hb.2⟩
      have hlater : ∀ w ∈ (splitWords d cs).2, w ≠ [] ∧ ∀ b ∈ w, b ∈ c :: cs ∧ b ≠ d :=
        fun w hw => ⟨(hrest w hw).1, fun b hb => hmem ((hrest w hw).2 b hb)⟩
      unfold splitWords
      simp only
      split
      · -- a delimiter: the word that was at the front goes to the others, unless it is empty
        refine ⟨nofun, fun w hw => ?_⟩
        simp only at hw
        split at hw
        · exact hlater w hw
        · next hne =>
          rcases List.mem_cons.mp hw with rfl | hw
          · exact ⟨hne, fun b hb => hmem (hfront b hb)⟩
          · exact hlater w hw
      · next hc =>
        refine ⟨fun b hb => ?_, hlater⟩
        rcases List.mem_cons.mp hb with rfl | hb
        · exact ⟨List.mem_cons_self, hc⟩
        · exact hmem (hfront b hb)

/-- Words are not empty and consist of bytes of the string other than the delimiter. -/
theorem words_spec {d : UInt8} {s w : List UInt8} (h : w ∈ words d s) :
    w ≠ [] ∧ ∀ b ∈ w, b ∈ s ∧ b ≠ d := by
  obtain ⟨hfront, hrest⟩ := splitWords_spec d s
  unfold words at h
  simp only at h
  split at h
  · exact hrest w h
  · next hne =>
    rcases List.mem_cons.mp h with rfl | h
    · exact ⟨hne, hfront⟩
    · exact hrest w h

end SystemOS.Lib.Strings
