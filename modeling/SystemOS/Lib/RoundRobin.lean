/-
  SystemOS.Lib.RoundRobin — the cyclic scan of a round-robin selection, and why it starves nobody.

  Slots are numbered from 0 and a scan looks at `n` of them in cyclic order.  A selection starts
  after the slot chosen last; `-1` stands for "nothing chosen yet", and `n` may grow between two
  selections (new slots are appended).

  Key results:
    * `cyclicFind_eq_some`, `cyclicFind_eq_none` — the scan returns the first match in cyclic order.
    * `rank_lt`        — as long as a waiting candidate `t` is passed over, each selection is
      strictly further on the way round from `t` than the one before it.
    * `nodup_of_ranks` — so no slot is selected twice before `t` is.
-/
import Mathlib.Data.List.Nodup
import Mathlib.Data.Prod.Lex

namespace SystemOS.Lib.RoundRobin

/-! ## §1. The scan. -/

/-- Look at `k` slots in cyclic order from `s` on and return the first that satisfies `p`. -/
def cyclicFind (p : Nat → Prop) [DecidablePred p] (n : Nat) : Nat → Nat → Option Nat
  | 0, _ => none
  | k + 1, s => if p s then some s else cyclicFind p n k ((s + 1) % n)

/-- `i` is the first slot satisfying `p` in cyclic order from `s` on, `d` steps away. -/
structure FirstAt (p : Nat → Prop) (n s d i : Nat) : Prop where
  near : d < n
  slot : i = (s + d) % n
  holds : p i
  before : ∀ e < d, ¬ p ((s + e) % n)

variable {p : Nat → Prop} [DecidablePred p] {n : Nat}

theorem succ_mod_add (s e n : Nat) : ((s + 1) % n + e) % n = (s + (e + 1)) % n := by
  rw [Nat.mod_add_mod]
  congr 1
  omega

/-- What a scan of `k` slots finds. -/
theorem cyclicFind_some : ∀ {k s i : Nat}, s < n → cyclicFind p n k s = some i →
    ∃ d < k, i = (s + d) % n ∧ p i ∧ ∀ e < d, ¬ p ((s + e) % n)
  | 0, _, _, _, h => by simp [cyclicFind] at h
  | k + 1, s, i, hs, h => by
      unfold cyclicFind at h
      split at h
      · next hp =>
        cases h
        exact ⟨0, by omega, (Nat.mod_eq_of_lt hs).symm, hp, by omega⟩
      · next hp =>
        obtain ⟨d, hd, hi, hpi, hbefore⟩ := cyclicFind_some (Nat.mod_lt _ (by omega)) h
        rw [succ_mod_add] at hi
        refine ⟨d + 1, by omega, hi, hpi, fun e he => ?_⟩
        rcases e with _ | e
        · rwa [Nat.add_zero, Nat.mod_eq_of_lt hs]
        · rw [← succ_mod_add]
          exact hbefore e (by omega)

/-- What a scan of `k` slots that finds nothing has looked at. -/
theorem cyclicFind_none : ∀ {k s : Nat}, s < n → cyclicFind p n k s = none →
    ∀ e < k, ¬ p ((s + e) % n)
  | 0, _, _, _, _, he => absurd he (Nat.not_lt_zero _)
  | k + 1, s, hs, h, e, he => by
      unfold cyclicFind at h
      split at h
      · cases h
      · next hp =>
        rcases e with _ | e
        · rwa [Nat.add_zero, Nat.mod_eq_of_lt hs]
        · rw [← succ_mod_add]
          exact cyclicFind_none (Nat.mod_lt _ (by omega)) h e (by omega)

/-- Every slot is some number of steps below `n` away from `s`. -/
theorem exists_distance {s i : Nat} (hs : s < n) (hi : i < n) : ∃ d < n, (s + d) % n = i := by
  rcases Nat.lt_or_ge i s with h | h
  · refine ⟨i + n - s, by omega, ?_⟩
    rw [show s + (i + n - s) = i + n by omega, Nat.add_mod_right, Nat.mod_eq_of_lt hi]
  · exact ⟨i - s, by omega, by rw [show s + (i - s) = i by omega, Nat.mod_eq_of_lt hi]⟩

omit [DecidablePred p] in
theorem FirstAt.lt {s d i : Nat} (h : FirstAt p n s d i) : i < n := by
  rw [h.slot]
  exact Nat.mod_lt _ (lt_of_le_of_lt (Nat.zero_le d) h.near)

/-- **A full scan returns the first match in cyclic order.** -/
theorem cyclicFind_eq_some {s i : Nat} (hs : s < n) (h : cyclicFind p n n s = some i) :
    ∃ d, FirstAt p n s d i := by
  obtain ⟨d, hd, hi, hpi, hbefore⟩ := cyclicFind_some hs h
  exact ⟨d, hd, hi, hpi, hbefore⟩

/-- A full scan that returns nothing has found no match at all. -/
theorem cyclicFind_eq_none {s : Nat} (hs : s < n) (h : cyclicFind p n n s = none) :
    ∀ i < n, ¬ p i := by
  intro i hi
  obtain ⟨d, hd, hdi⟩ := exists_distance hs hi
  rw [← hdi]
  exact cyclicFind_none hs h d hd

/-! ## §2. Fairness. -/

/-- How far round a slot is from `t`: first the slots after `t` in increasing order, then the slots
    from 0 up to `t`.  Appending slots does not disturb the order. -/
def rank (t c : Int) : Int ×ₗ Int := toLex (if t < c then 0 else 1, c)

theorem rank_lt_of_gt {t c i : Int} (h : c < i) (hside : t < c → t < i) (hside' : t < i → t < c) :
    rank t c < rank t i := by
  unfold rank
  rw [Prod.Lex.toLex_lt_toLex]
  right
  by_cases hc : t < c
  · simp [hc, hside hc, h]
  · have hi : ¬ t < i := fun hi => hc (hside' hi)
    simp [hc, hi, h]

theorem rank_lt_of_wrap {t c i : Int} (hc : t < c) (hi : ¬ t < i) : rank t c < rank t i := by
  unfold rank
  rw [Prod.Lex.toLex_lt_toLex]
  left
  simp [hc, hi]

/-- The slot a selection after `c` starts at. -/
def startAfter (n : Nat) (c : Int) : Nat := ((c + 1) % (n : Int)).toNat

theorem startAfter_lt {c : Int} (hn : 0 < n) : startAfter n c < n := by
  unfold startAfter
  have h1 := Int.emod_nonneg (c + 1) (show (n : Int) ≠ 0 by omega)
  have h2 := Int.emod_lt_of_pos (c + 1) (show (0 : Int) < n by omega)
  omega

theorem startAfter_eq {c : Int} (hlo : -1 ≤ c) (hhi : c < n) :
    (startAfter n c : Int) = if c + 1 < n then c + 1 else 0 := by
  unfold startAfter
  split
  · next h => rw [Int.emod_eq_of_lt (by omega) h]; omega
  · next h =>
    have : c + 1 = n := by omega
    rw [this, Int.emod_self]
    rfl

omit [DecidablePred p] in
/-- **A selection that passes over the candidate `t` moves on.** -/
theorem rank_lt {t : Nat} {c : Int} {d i : Nat} (hlo : -1 ≤ c) (hhi : c < n) (ht : t < n) (hpt : p t)
    (hct : c ≠ t) (h : FirstAt p n (startAfter n c) d i) (hit : i ≠ t) : rank t c < rank t i := by
  have hn : 0 < n := by omega
  have hs := startAfter_lt (c := c) hn
  have heq := startAfter_eq hlo hhi
  have hi := h.lt
  -- `t` is a match, so the scan stops before it reaches `t`
  have hbefore : ∀ e, e ≤ d → (startAfter n c + e) % n ≠ t := by
    intro e he hcontra
    rcases Nat.lt_or_ge e d with hlt | hge
    · exact h.before e hlt (hcontra ▸ hpt)
    · have : e = d := by omega
      subst this
      exact hit (h.slot.trans hcontra)
  -- whether the scan has wrapped when it stops
  have hd := h.near
  have hslot := h.slot
  have hwrap : startAfter n c + d < n ∧ i = startAfter n c + d
      ∨ n ≤ startAfter n c + d ∧ i + n = startAfter n c + d := by
    rcases Nat.lt_or_ge (startAfter n c + d) n with hlt | hge
    · rw [Nat.mod_eq_of_lt hlt] at hslot
      exact .inl ⟨hlt, hslot⟩
    · have hsub : (startAfter n c + d) % n = startAfter n c + d - n := by
        rw [Nat.mod_eq_sub_mod hge, Nat.mod_eq_of_lt (by omega)]
      exact .inr ⟨hge, by omega⟩
  -- the scan does not pass `t`
  have hpass : ¬ (startAfter n c ≤ t ∧ t ≤ startAfter n c + d) := by
    intro hboth
    obtain ⟨h1, h2⟩ := hboth
    refine hbefore (t - startAfter n c) (by omega) ?_
    rw [show startAfter n c + (t - startAfter n c) = t by omega, Nat.mod_eq_of_lt ht]
  have hpass' : ¬ (t + n ≤ startAfter n c + d) := by
    intro h2
    refine hbefore (t + n - startAfter n c) (by omega) ?_
    rw [show startAfter n c + (t + n - startAfter n c) = t + n by omega, Nat.add_mod_right,
        Nat.mod_eq_of_lt ht]
  by_cases hside : (t : Int) < c
  · by_cases hiside : (t : Int) < i
    · refine rank_lt_of_gt ?_ (fun _ => hiside) (fun _ => hside)
      split at heq <;> omega
    · exact rank_lt_of_wrap hside hiside
  · have hle : c < t := by omega
    refine rank_lt_of_gt ?_ (fun hc => absurd hc hside) (fun hi => ?_)
    · split at heq <;> omega
    · split at heq <;> omega

/-- Selections of increasing rank are distinct. -/
theorem nodup_of_ranks {t : Int} {c : Int} {picks : List Nat}
    (h : (rank t c :: picks.map fun i : Nat => rank t i).IsChain (· < ·)) : picks.Nodup := by
  have hp : (picks.map fun i : Nat => rank t i).Pairwise (· < ·) :=
    (List.isChain_iff_pairwise.mp h).of_cons
  rw [List.pairwise_map] at hp
  exact hp.imp fun hlt heq => by
    subst heq
    exact absurd hlt (lt_irrefl _)

end SystemOS.Lib.RoundRobin
