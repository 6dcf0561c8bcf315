/-
  SystemOS.Kernel.FreshImage — what a program started by `execve` finds in its registers.

  `execveTask` puts a frame over the top of the old stack and writes eleven of its thirteen fields.
  The other two keep the bytes that the old program left there.

  Main results:
    * `execve_written`, `execve_kept` — the fields that do not depend on the old stack, and those
      that are the old stack.
    * `freshImage_iff`   — when two calls give the new program the same registers.
-/
import SystemOS.Kernel.Contexts

namespace SystemOS.Kernel.FreshImage

open SystemOS.Lib.ByteMemory
open SystemOS.Kernel.Multitasking SystemOS.Kernel.Multitasking.TaskManager
open SystemOS.Kernel.Contexts

/-- The frame that `execveTask` makes: the last bytes of the stack. -/
def imageFrame (k : TaskManager) : Nat := sub32 (add32 k.current.stack stackSize) sizeofCPUState

/-- The current tasks of two states look the same to `execveTask`. -/
structure SameTask (k k' : TaskManager) : Prop where
  pid : k'.current.pid = k.current.pid
  stack : k'.current.stack = k.current.stack
  gdt : k'.current.gdt = k.current.gdt

/-- Both calls return frames with the same contents. -/
def SameImage (k k' : TaskManager) (entrypoint : Nat) : Prop :=
  ∀ r, getReg (k'.execveTask entrypoint).1.mem (k'.execveTask entrypoint).2 r
    = getReg (k.execveTask entrypoint).1.mem (k.execveTask entrypoint).2 r

variable {k k' : TaskManager}

theorem execve_frame (k : TaskManager) (entrypoint : Nat) :
    (k.execveTask entrypoint).2 = imageFrame k := rfl

/-- What is read back from a word does not depend on what was there. -/
theorem getReg_setReg_same (m m' : Mem) (c : Nat) (r : Reg) (v : Nat) :
    getReg (setReg m c r v) c r = getReg (setReg m' c r v) c r := by
  refine readWord_congr fun x hx hx' => ?_
  unfold setReg writeWord
  rw [if_pos ⟨hx, hx'⟩, if_pos ⟨hx, hx'⟩]

/-- **A field that `execveTask` writes** does not depend on the old stack. -/
theorem execve_written (h : SameTask k k') (entrypoint : Nat) {r : Reg} (hedx : r ≠ .edx)
    (hss : r ≠ .ss) : getReg (k'.execveTask entrypoint).1.mem (imageFrame k') r
      = getReg (k.execveTask entrypoint).1.mem (imageFrame k) r := by
  unfold execveTask imageFrame
  simp only [h.stack, h.pid]
  -- the writes behind that of `r` are to other words
  cases r with
  | edx => exact absurd rfl hedx
  | ss => exact absurd rfl hss
  | eflags => exact getReg_setReg_same ..
  | _ =>
    simp (disch := decide) only [getReg_setReg_of_ne]
    exact getReg_setReg_same ..

/-- **A field that it does not write** is what the old program left on the stack. -/
theorem execve_kept (k : TaskManager) (entrypoint : Nat) {r : Reg} (h : r = .edx ∨ r = .ss) :
    getReg (k.execveTask entrypoint).1.mem (imageFrame k) r = getReg k.mem (imageFrame k) r := by
  unfold execveTask imageFrame
  rcases h with rfl | rfl <;> simp (disch := decide) only [getReg_setReg_of_ne]

/-- **Two calls give the new program the same registers** exactly when the old stacks agree in the
    two words that become `edx` and `ss`. -/
theorem freshImage_iff (h : SameTask k k') (entrypoint : Nat) : SameImage k k' entrypoint ↔
    getReg k'.mem (imageFrame k') .edx = getReg k.mem (imageFrame k) .edx
      ∧ getReg k'.mem (imageFrame k') .ss = getReg k.mem (imageFrame k) .ss := by
  have hkept : ∀ {r : Reg}, r = .edx ∨ r = .ss →
      (getReg (k'.execveTask entrypoint).1.mem (imageFrame k') r
          = getReg (k.execveTask entrypoint).1.mem (imageFrame k) r ↔
        getReg k'.mem (imageFrame k') r = getReg k.mem (imageFrame k) r) := by
    intro r hr
    rw [execve_kept k entrypoint hr, execve_kept k' entrypoint hr]
  constructor
  · intro himage
    exact ⟨(hkept (.inl rfl)).mp (himage .edx), (hkept (.inr rfl)).mp (himage .ss)⟩
  · rintro ⟨hedx, hss⟩ r
    by_cases hr : r = .edx ∨ r = .ss
    · refine (hkept hr).mpr ?_
      rcases hr with rfl | rfl
      · exact hedx
      · exact hss
    · rw [not_or] at hr
      exact execve_written h entrypoint hr.1 hr.2

/-- A task with its stack at 2 MiB; the old program left `v` where the new `edx` is. -/
def leftBehind (v : Nat) : TaskManager where
  tasks _ := ⟨0x200000, 0, .READY, 1, 0, 0x1000, minusOne⟩
  numTasks := 1
  currentTask := 0
  processCounter := 2
  mem := setReg (fun _ => 0) 0x200FCC .edx v

theorem leftBehind_same (v w : Nat) : SameTask (leftBehind v) (leftBehind w) := by
  have hcurrent : ∀ u, (leftBehind u).current = ⟨0x200000, 0, .READY, 1, 0, 0x1000, minusOne⟩ :=
    fun _ => rfl
  refine ⟨?_, ?_, ?_⟩ <;> rw [hcurrent, hcurrent]

theorem freshImage_iff_left : SameImage (leftBehind 0) (leftBehind 5) 0x100000 ↔
    getReg (leftBehind 5).mem (imageFrame (leftBehind 5)) .edx
        = getReg (leftBehind 0).mem (imageFrame (leftBehind 0)) .edx
      ∧ getReg (leftBehind 5).mem (imageFrame (leftBehind 5)) .ss
        = getReg (leftBehind 0).mem (imageFrame (leftBehind 0)) .ss :=
  freshImage_iff (leftBehind_same 0 5) 0x100000

theorem leftBehind_edx {v : Nat} (hv : v < 2 ^ 32) :
    getReg (leftBehind v).mem (imageFrame (leftBehind v)) .edx = v := by
  have hframe : imageFrame (leftBehind v) = 0x200FCC := by
    show sub32 (add32 0x200000 stackSize) sizeofCPUState = 0x200FCC
    decide
  rw [hframe]
  exact read_write_self _ _ hv

/-- The new program can read in `edx` what the old one left on the stack. -/
theorem edx_leaks : ¬ ∀ (k k' : TaskManager) (entrypoint : Nat), SameTask k k' →
    SameImage k k' entrypoint := by
  intro hclaim
  have hedx := hclaim (leftBehind 0) (leftBehind 5) 0x100000 (leftBehind_same 0 5) .edx
  rw [execve_frame, execve_frame, execve_kept _ _ (.inl rfl), execve_kept _ _ (.inl rfl),
    leftBehind_edx (by omega), leftBehind_edx (by omega)] at hedx
  exact absurd hedx (by decide)

end SystemOS.Kernel.FreshImage
