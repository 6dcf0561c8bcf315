/-
  SystemOS.Lib.BoundedRing — a bounded ring with separate in, out and count indices, as a queue.

  `Represents size r q` says that the ring `r` holds the queue `q`: the `count` slots from `out` on
  are the elements of `q` in order, and `in_` is the slot after them.

  Key results:
    * `Represents.push` — putting into a ring that is not full appends to the queue.
    * `Represents.pop`  — taking from a ring that is not empty removes the oldest element.
-/
import Mathlib.Data.List.Basic
import Mathlib.Logic.Function.Basic

namespace SystemOS.Lib.BoundedRing

universe u

variable {α : Type u}

/-- The ring: slots by index, the index of the next put, of the next take, and the fill level. -/
structure RingBuffer (α : Type u) where
  buffer : Nat → α
  in_ : Nat
  out : Nat
  count : Int

def RingBuffer.push (r : RingBuffer α) (size : Nat) (a : α) : RingBuffer α :=
  { r with buffer := Function.update r.buffer r.in_ a, in_ := (r.in_ + 1) % size,
           count := r.count + 1 }

def RingBuffer.front (r : RingBuffer α) : α := r.buffer r.out

def RingBuffer.pop (r : RingBuffer α) (size : Nat) : RingBuffer α :=
  { r with out := (r.out + 1) % size, count := r.count - 1 }

/-- The ring `r` of `size` slots holds the queue `q`. -/
structure Represents (size : Nat) (r : RingBuffer α) (q : List α) : Prop where
  out_lt : r.out < size
  count_eq : r.count = q.length
  fits : q.length ≤ size
  in_eq : r.in_ = (r.out + q.length) % size
  slots : ∀ j (h : j < q.length), r.buffer ((r.out + j) % size) = q[j]

/-- An empty ring holds the empty queue. -/
theorem Represents.empty {size : Nat} (hsize : 0 < size) (buffer : Nat → α) :
    Represents size ⟨buffer, 0, 0, 0⟩ [] where
  out_lt := hsize
  count_eq := rfl
  fits := Nat.zero_le _
  in_eq := (Nat.zero_mod _).symm
  slots := fun _ h => absurd h (Nat.not_lt_zero _)

/-- Slots less than a full turn apart are different. -/
theorem slot_injective {size o i j : Nat} (hij : i < j) (hj : j < size + i) :
    (o + i) % size ≠ (o + j) % size := by
  intro h
  have hmod : (o + j - (o + i)) % size = 0 := Nat.sub_mod_eq_zero_of_mod_eq h.symm
  rw [Nat.mod_eq_of_lt (by omega)] at hmod
  omega

theorem Represents.push {size : Nat} {r : RingBuffer α} {q : List α} (h : Represents size r q) (a : α)
    (hroom : q.length < size) : Represents size (r.push size a) (q ++ [a]) where
  out_lt := h.out_lt
  count_eq := by
    show r.count + 1 = _
    rw [h.count_eq, List.length_append, List.length_singleton]
    omega
  fits := by
    rw [List.length_append, List.length_singleton]
    omega
  in_eq := by
    show (r.in_ + 1) % size = _
    rw [h.in_eq, Nat.mod_add_mod, List.length_append, List.length_singleton, Nat.add_assoc]
    rfl
  slots := by
    intro j hj
    rw [List.length_append, List.length_singleton] at hj
    show Function.update r.buffer r.in_ a ((r.out + j) % size) = _
    rcases Nat.lt_or_ge j q.length with hlt | hge
    · -- an old slot is not the slot of the put
      have hne : (r.out + j) % size ≠ r.in_ := by
        rw [h.in_eq]
        exact slot_injective hlt (by omega)
      rw [Function.update_of_ne hne, h.slots j hlt, List.getElem_append_left hlt]
    · have hj' : j = q.length := by omega
      subst hj'
      rw [← h.in_eq, Function.update_self, List.getElem_concat_length rfl]

theorem Represents.pop {size : Nat} {r : RingBuffer α} {a : α} {q : List α}
    (h : Represents size r (a :: q)) : r.front = a ∧ Represents size (r.pop size) q := by
  have hlen : (a :: q).length = q.length + 1 := List.length_cons
  have hfits := h.fits
  have hcount := h.count_eq
  rw [hlen] at hfits hcount
  refine ⟨?_, ?_, ?_, by omega, ?_, ?_⟩
  · have := h.slots 0 (by omega)
    rwa [Nat.add_zero, Nat.mod_eq_of_lt h.out_lt] at this
  · exact Nat.mod_lt _ (by omega)
  · show r.count - 1 = _
    omega
  · show r.in_ = ((r.out + 1) % size + q.length) % size
    rw [h.in_eq, hlen, Nat.mod_add_mod]
    congr 1
    omega
  · intro j hj
    show r.buffer (((r.out + 1) % size + j) % size) = q[j]
    rw [Nat.mod_add_mod, show r.out + 1 + j = r.out + (j + 1) by omega,
        h.slots (j + 1) (by omega), List.getElem_cons_succ]

end SystemOS.Lib.BoundedRing
