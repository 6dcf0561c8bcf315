/-
  SystemOS.Lib.Overlay — blocks of bytes written over one another.

  A log of writes, oldest first, is laid over a memory; where two blocks overlap the later one
  shows.  When do all the blocks of the log stand in the memory afterwards?

  Main results:
    * `Holds.overlay`       — a block outlives the writes that agree with it.
    * `overlay_holds_iff`   — the blocks from one on all stand exactly when any two of them agree
      where they overlap.
-/
import SystemOS.Lib.ByteMemory

namespace SystemOS.Lib.Overlay

open SystemOS.Lib.ByteMemory

/-- A block of bytes and the address it is written to. -/
abbrev Write := Nat × List UInt8

/-- The memory after the writes `ws`, oldest first. -/
def overlay (m : Mem) (ws : List Write) : Mem :=
  ws.foldl (fun m w => writeBytes m w.1 w.2) m

/-- The bytes of `w` stand at its address. -/
def Holds (m : Mem) (w : Write) : Prop :=
  ∀ (i : Nat) (h : i < w.2.length), m (w.1 + i) = w.2[i]

/-- The two blocks have the same bytes wherever they overlap. -/
def Agree (v w : Write) : Prop :=
  ∀ (i j : Nat) (hi : i < v.2.length) (hj : j < w.2.length), v.1 + i = w.1 + j → v.2[i] = w.2[j]

variable {m : Mem} {v w : Write} {vs ws : List Write}

/-! ## §1. Blocks that agree. -/

/-- Two blocks that stand in the same memory agree. -/
theorem Holds.agree (hv : Holds m v) (hw : Holds m w) : Agree v w := by
  intro i j hi hj heq
  rw [← hv i hi, ← hw j hj, heq]

/-! ## §2. One write, then any number. -/

@[simp] theorem overlay_nil : overlay m [] = m := rfl

@[simp] theorem overlay_cons : overlay m (w :: ws) = overlay (writeBytes m w.1 w.2) ws := rfl

theorem overlay_append : overlay m (vs ++ ws) = overlay (overlay m vs) ws := List.foldl_append

/-- The last write shows. -/
theorem Holds.write (m : Mem) (w : Write) : Holds (writeBytes m w.1 w.2) w :=
  fun _ h => writeBytes_at m h

/-- A block outlives a write that agrees with it. -/
theorem Holds.after (h : Holds m v) (hvw : Agree v w) : Holds (writeBytes m w.1 w.2) v := by
  intro i hi
  by_cases hin : w.1 ≤ v.1 + i ∧ v.1 + i < w.1 + w.2.length
  · -- the byte is written again
    obtain ⟨j, hj⟩ : ∃ j, v.1 + i = w.1 + j := ⟨v.1 + i - w.1, by omega⟩
    have hlt : j < w.2.length := by omega
    rw [hj, writeBytes_at m hlt]
    exact (hvw i j hi hlt hj).symm
  · rw [writeBytes_of_out m (by omega)]
    exact h i hi

theorem Holds.overlay (h : Holds m v) (hws : ∀ w ∈ ws, Agree v w) : Holds (overlay m ws) v := by
  induction ws generalizing m with
  | nil => exact h
  | cons w ws ih =>
    rw [overlay_cons]
    apply ih (h.after (hws w List.mem_cons_self))
    intro u hu
    exact hws u (List.mem_cons_of_mem _ hu)

/-- **The blocks of a log from the `k`-th on all stand exactly when any two of them agree.** -/
theorem overlay_holds_iff (m : Mem) (ws : List Write) (k : Nat) :
    (∀ (p : Nat) (h : p < ws.length), k ≤ p → Holds (overlay m ws) ws[p]) ↔
      ∀ (p q : Nat) (hpq : p < q) (hq : q < ws.length), k ≤ p → Agree ws[p] ws[q] := by
  constructor
  · intro h p q hpq hq hk
    exact (h p (by omega) hk).agree (h q hq (by omega))
  · intro h p hp hk
    have hsplit : ws = ws.take p ++ ws[p] :: ws.drop (p + 1) := by
      rw [List.getElem_cons_drop, List.take_append_drop]
    have hlater : ∀ w ∈ ws.drop (p + 1), Agree ws[p] w := by
      intro w hw
      obtain ⟨i, hi, rfl⟩ := List.mem_iff_getElem.mp hw
      rw [List.length_drop] at hi
      rw [List.getElem_drop]
      exact h p (p + 1 + i) (by omega) (by omega) hk
    have hstands := (Holds.write (overlay m (ws.take p)) ws[p]).overlay hlater
    rw [← overlay_cons, ← overlay_append, ← hsplit] at hstands
    exact hstands

end SystemOS.Lib.Overlay
