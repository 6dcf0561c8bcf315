/-
  SystemOS.DirCopy.RingBounds — which slots of the ring the copier uses.

  The indices run modulo `buffer_size`, a number of the command line; the array has
  `MAX_BUFFER_SIZE` slots.  With a larger `buffer_size` the manager alone drives `in` past the end,
  one file after the other.

  Main results:
    * `filled`      — the manager can fill the ring before a worker starts.
    * `bounds_iff`  — when every index and every access is inside the array, in every run.
-/
import SystemOS.DirCopy.RingRuns

namespace SystemOS.DirCopy.RingBounds

open SystemOS.Lib.BoundedRing SystemOS.Lib.Transition SystemOS.DirCopy.Copier
open SystemOS.DirCopy.RingRuns

/-- The next step of a thread reads or writes slot `k`. -/
inductive Accesses (s : State) : Nat → Prop
  | put {f : OpenFile} : s.manager = .tested f → s.stop = false → Accesses s s.file_buffer.in_
  | take {i : Nat} : s.workers i = .tested → ¬ s.drained → Accesses s s.file_buffer.out

/-- The indices, and with them the accesses, are inside the array. -/
structure InBounds (s : State) : Prop where
  in_lt : s.file_buffer.in_ < MAX_BUFFER_SIZE
  out_lt : s.file_buffer.out < MAX_BUFFER_SIZE
  access : ∀ k, Accesses s k → k < MAX_BUFFER_SIZE

variable {c : Config} {s : State}

/-! ## §1. A ring that fits the array. -/

/-- In every run the indices stay below `buffer_size`. -/
theorem indices_lt (hs : (copierSystem c).Reachable s) :
    s.file_buffer.in_ < c.buffer_size ∧ s.file_buffer.out < c.buffer_size := by
  obtain ⟨q, hrep, -⟩ := (copierInv_reachable hs).queued
  refine ⟨?_, hrep.out_lt⟩
  rw [hrep.in_eq]
  exact Nat.mod_lt _ c.size_pos

theorem inBounds_of_le (hle : c.buffer_size ≤ MAX_BUFFER_SIZE)
    (hs : (copierSystem c).Reachable s) : InBounds s := by
  obtain ⟨hin, hout⟩ := indices_lt hs
  refine ⟨by omega, by omega, fun k hk => ?_⟩
  cases hk with
  | put _ _ => omega
  | take _ _ => omega

/-! ## §2. A ring that does not. -/

/-- The manager has put `k` files into the ring, and no worker has started. -/
structure Filled (c : Config) (k : Nat) (s : State) : Prop where
  reachable : (copierSystem c).Reachable s
  manager : s.manager = .walking
  owner : s.owner = none
  stop : s.stop = false
  workers : s.workers = fun _ => .locking
  in_eq : s.file_buffer.in_ = k
  count : s.file_buffer.count = k

/-- **The manager can fill the ring**, up to the last slot but one. -/
theorem filled {k : Nat} (hk : k < c.buffer_size) : ∃ s, Filled c k s := by
  induction k with
  | zero =>
    exact ⟨start fun _ => ⟨0, 0, [], []⟩, .start ⟨_, rfl⟩, rfl, rfl, rfl, rfl, rfl, rfl⟩
  | succ k ih =>
    obtain ⟨s, h⟩ := ih (by omega)
    have hroom : ¬ s.full c := by
      rintro ⟨hfull, -⟩
      rw [h.count] at hfull
      omega
    -- open, lock, test, put, signal
    have h1 := h.reachable.next (.manager (.openFile oneFile h.manager h.stop))
    have h2 := h1.next (.manager (.lock rfl h.owner))
    have h3 := h2.next (.manager (.leave rfl hroom))
    have h4 := h3.next (.manager (.put rfl h.stop))
    have hnobody : ∀ i < c.num_workers, s.workers i ≠ .waiting := by
      intro i _
      rw [h.workers]
      exact nofun
    have h5 := h4.next (.manager (.signal rfl (.nobody hnobody)))
    refine ⟨_, h5, rfl, rfl, h.stop, h.workers, ?_, ?_⟩
    · show (s.file_buffer.in_ + 1) % c.buffer_size = k + 1
      rw [h.in_eq, Nat.mod_eq_of_lt hk]
    · show s.file_buffer.count + 1 = ((k + 1 : Nat) : Int)
      rw [h.count]
      rfl

theorem not_inBounds_of_lt (hlt : MAX_BUFFER_SIZE < c.buffer_size) :
    ∃ s, (copierSystem c).Reachable s ∧ ¬ InBounds s := by
  obtain ⟨s, h⟩ := filled hlt
  refine ⟨s, h.reachable, fun hin => ?_⟩
  have hbound := hin.in_lt
  rw [h.in_eq] at hbound
  exact Nat.lt_irrefl _ hbound

/-! ## §3. When the accesses are in bounds. -/

/-- **In every run every index and every access is inside the array** exactly when `buffer_size` is
    at most `MAX_BUFFER_SIZE`. -/
theorem bounds_iff (c : Config) : (∀ s, (copierSystem c).Reachable s → InBounds s)
    ↔ c.buffer_size ≤ MAX_BUFFER_SIZE := by
  constructor
  · intro h
    by_contra hgt
    obtain ⟨s, hs, hout⟩ := not_inBounds_of_lt (Nat.not_le.mp hgt)
    exact hout (h s hs)
  · intro hle s hs
    exact inBounds_of_le hle hs

/-- `main 1025 1 src dst`: the 1025th file goes behind the array. -/
theorem in_past_the_end : ¬ ∀ (c : Config) (s : State), (copierSystem c).Reachable s →
    InBounds s := by
  intro hclaim
  obtain ⟨s, hs, hout⟩ := not_inBounds_of_lt (c := ⟨1025, 1, true, by decide, by decide⟩)
    (by decide)
  exact hout (hclaim _ s hs)

end SystemOS.DirCopy.RingBounds
