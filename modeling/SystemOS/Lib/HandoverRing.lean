/-
  SystemOS.Lib.HandoverRing — a ring of slots that two parties hand to one another.

  Each of `N` slots either belongs to the producer (`none`) or holds an item for the consumer.  The
  producer fills the slot after the last item, the consumer empties the slot at `head`, and neither
  keeps a count: the mark in the slot is all they share.

  Key results:
    * `Handed.free_iff` — the producer's next slot is its own exactly when the ring is not full.
    * `Handed.put`      — filling that slot appends to the queue.
    * `Handed.taken_iff` — the slot at `head` holds an item exactly when the queue is not empty.
    * `Handed.take`     — emptying it removes the oldest item.
-/
import SystemOS.Lib.BoundedRing

namespace SystemOS.Lib.HandoverRing

open SystemOS.Lib.BoundedRing

universe u

variable {α : Type u} {N head : Nat} {slot slot' : Nat → Option α} {a : α} {q : List α}

/-- The slots from `head` on hold the items `q` in order, and the other slots are the producer's. -/
structure Handed (N : Nat) (slot : Nat → Option α) (head : Nat) (q : List α) : Prop where
  head_lt : head < N
  fits : q.length ≤ N
  item : ∀ i (h : i < q.length), slot ((head + i) % N) = some q[i]
  free : ∀ i, q.length ≤ i → i < N → slot ((head + i) % N) = none

/-- A ring of free slots holds nothing. -/
theorem Handed.empty (h0 : head < N) (h : ∀ i < N, slot i = none) : Handed N slot head [] where
  head_lt := h0
  fits := Nat.zero_le _
  item := fun _ hi => absurd hi (Nat.not_lt_zero _)
  free := fun _ _ _ => h _ (Nat.mod_lt _ (by omega))

/-- Only the marks matter. -/
theorem Handed.congr (h : Handed N slot head q) (hs : ∀ i < N, slot' i = slot i) :
    Handed N slot' head q where
  head_lt := h.head_lt
  fits := h.fits
  item := by
    intro i hi
    rw [hs _ (Nat.mod_lt _ (Nat.zero_lt_of_lt h.head_lt))]
    exact h.item i hi
  free := by
    intro i hi hN
    rw [hs _ (Nat.mod_lt _ (Nat.zero_lt_of_lt h.head_lt))]
    exact h.free i hi hN

/-- Each slot is reached from `head` in less than a turn. -/
theorem exists_offset (h0 : head < N) {j : Nat} (hj : j < N) : ∃ i < N, j = (head + i) % N := by
  rcases Nat.lt_or_ge j head with hlt | hge
  · refine ⟨j + N - head, by omega, ?_⟩
    rw [show head + (j + N - head) = j + N by omega, Nat.add_mod_right, Nat.mod_eq_of_lt hj]
  · refine ⟨j - head, by omega, ?_⟩
    rw [show head + (j - head) = j by omega, Nat.mod_eq_of_lt hj]

/-- Slots less than a turn apart are different. -/
theorem offset_ne {i j : Nat} (hi : i < N) (hj : j < N) (hij : i ≠ j) :
    (head + i) % N ≠ (head + j) % N := by
  rcases Nat.lt_or_gt_of_ne hij with hlt | hgt
  · exact slot_injective hlt (by omega)
  · exact (slot_injective hgt (by omega)).symm

/-! ## The producer. -/

theorem Handed.free_iff (h : Handed N slot head q) :
    slot ((head + q.length) % N) = none ↔ q.length < N := by
  constructor
  · intro hfree
    by_contra hfull
    -- a full ring: the slot after the last item is the one of the first
    have hlen : q.length = N := Nat.le_antisymm h.fits (Nat.not_lt.mp hfull)
    have hpos : 0 < q.length := hlen ▸ Nat.zero_lt_of_lt h.head_lt
    have hfirst := h.item 0 hpos
    rw [hlen, Nat.add_mod_right] at hfree
    rw [Nat.add_zero, hfree] at hfirst
    cases hfirst
  · exact fun hlt => h.free _ (Nat.le_refl _) hlt

theorem Handed.put (h : Handed N slot head q) (hroom : q.length < N)
    (hself : slot' ((head + q.length) % N) = some a)
    (hrest : ∀ j < N, j ≠ (head + q.length) % N → slot' j = slot j) :
    Handed N slot' head (q ++ [a]) where
  head_lt := h.head_lt
  fits := by
    rw [List.length_append, List.length_singleton]
    exact hroom
  item := by
    intro i hi
    rw [List.length_append, List.length_singleton] at hi
    rcases Nat.lt_or_ge i q.length with hlt | hge
    · rw [hrest _ (Nat.mod_lt _ (by omega)) (offset_ne (by omega) hroom (by omega)), h.item i hlt,
        List.getElem_append_left hlt]
    · have hi' : i = q.length := by omega
      subst hi'
      rw [hself, List.getElem_concat_length rfl]
  free := by
    intro i hi hN
    rw [List.length_append, List.length_singleton] at hi
    rw [hrest _ (Nat.mod_lt _ (by omega)) (offset_ne hN hroom (by omega))]
    exact h.free i (by omega) hN

/-! ## The consumer. -/

theorem Handed.taken_iff (h : Handed N slot head q) : slot head = none ↔ q = [] := by
  have hhead : (head + 0) % N = head := Nat.mod_eq_of_lt h.head_lt
  cases q with
  | nil =>
    have hfree := h.free 0 (Nat.le_refl _) (Nat.zero_lt_of_lt h.head_lt)
    rw [hhead] at hfree
    exact iff_of_true hfree rfl
  | cons a q =>
    have hitem := h.item 0 (Nat.succ_pos _)
    rw [hhead] at hitem
    rw [hitem]
    exact iff_of_false (Option.some_ne_none _) (List.cons_ne_nil _ _)

theorem Handed.take (h : Handed N slot head (a :: q)) (hself : slot' head = none)
    (hrest : ∀ j < N, j ≠ head → slot' j = slot j) :
    slot head = some a ∧ Handed N slot' ((head + 1) % N) q := by
  have hhead : (head + 0) % N = head := Nat.mod_eq_of_lt h.head_lt
  have hlen : (a :: q).length = q.length + 1 := List.length_cons
  have hfits := h.fits
  have hpos : 0 < N := Nat.zero_lt_of_lt h.head_lt
  have hoff : ∀ i, ((head + 1) % N + i) % N = (head + (i + 1)) % N := by
    intro i
    rw [Nat.mod_add_mod]
    congr 1
    omega
  -- the emptied slot is the last one of the producer's
  have hlast : ∀ i, i + 1 < N → (head + (i + 1)) % N ≠ head := by
    intro i hi heq
    exact offset_ne hi hpos (by omega) (heq.trans hhead.symm)
  refine ⟨?_, Nat.mod_lt _ hpos, by omega, ?_, ?_⟩
  · have hitem := h.item 0 (by omega)
    rwa [hhead] at hitem
  · intro i hi
    rw [hoff, hrest _ (Nat.mod_lt _ hpos) (hlast i (by omega)), h.item (i + 1) (by omega),
      List.getElem_cons_succ]
  · intro i hi hN
    rw [hoff]
    by_cases hi' : i + 1 < N
    · rw [hrest _ (Nat.mod_lt _ hpos) (hlast i hi')]
      exact h.free (i + 1) (by omega) hi'
    · rw [show head + (i + 1) = head + N by omega, Nat.add_mod_right, Nat.mod_eq_of_lt h.head_lt]
      exact hself

end SystemOS.Lib.HandoverRing
