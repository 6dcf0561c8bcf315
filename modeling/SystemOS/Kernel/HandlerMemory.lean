/-
  SystemOS.Kernel.HandlerMemory — which bytes an interrupt writes.

  A system call answers in `ecx` of the interrupted frame.  `execve` rebuilds a frame on the stack of
  the caller, and `fork` fills the stack of the child; when its `new` fails, it fills the frame and
  the fields of the object at null.

  Main results:
    * `written_only`  — no other byte changes, on whichever stack the interrupted frame lies.
    * `object_kept`   — the tasks keep their objects, also where the constructor runs over a record.
    * `object_added`  — a task that an interrupt adds has the object that `new` has answered with.
-/
import SystemOS.Kernel.ForkFrame
import SystemOS.Kernel.HeapRuns

namespace SystemOS.Kernel.HandlerMemory

open SystemOS.Lib.ByteMemory
open SystemOS.Kernel.HeapRuns (InBlock)
open SystemOS.Kernel.Multitasking SystemOS.Kernel.Multitasking.TaskManager
open SystemOS.Kernel.ScheduleCall SystemOS.Kernel.SchedulerRuns
open SystemOS.Kernel.TaskTable SystemOS.Kernel.ForkCall SystemOS.Kernel.ForkStack
open SystemOS.Kernel.ForkFrame

/-! ## §1. Bytes. -/

/-- The bytes that the constructor fills on a null pointer: a frame, and behind it the fields. -/
def nullBytes : Nat × Nat := (4044, 76)

/-- Byte `y` is one that the interrupt may write. -/
inductive Written (k : TaskManager) (ev : Event) (y : Nat) : Prop
  | answer : ev.interrupt = syscallVector → InBlock (ev.esp + 8, 4) y → Written k ev y
  | execve : ev.interrupt = syscallVector → getReg ev.mem ev.esp .eax = 11 →
      InBlock (k.current.stack + 4044, sizeofCPUState) y → Written k ev y
  | child {a : Nat} : CallsFork ev → ev.alloc = some a → InBlock (a, stackSize) y → Written k ev y
  | null : NewFails k ev → InBlock nullBytes y → Written k ev y

/-- The frame of a system call, the caller and a new object lie in the address space; the frame of a
    `fork` lies on the stack of its caller. -/
structure Placed (k : TaskManager) (ev : Event) : Prop where
  frame : ev.interrupt = syscallVector → ev.esp + sizeofCPUState ≤ 2 ^ 32
  caller : ev.interrupt = syscallVector → k.current.stack + sizeofTask ≤ 2 ^ 32
  fork : CallsFork ev → InStack k ev.esp
  object : ∀ a, ev.alloc = some a → a + sizeofTask ≤ 2 ^ 32

variable {k : TaskManager} {ev : Event} {y : Nat}

theorem task_sizes : sizeofTask = 4120 ∧ stackSize = 4096 ∧ sizeofCPUState = 52 := ⟨rfl, rfl, rfl⟩

theorem setReg_of_out (m : Mem) {c : Nat} (r : Reg) (v : Nat) (hc : c + sizeofCPUState ≤ 2 ^ 32)
    (hy : ¬ InBlock (c, sizeofCPUState) y) : setReg m c r v y = m y := by
  have hoff : r.offset + 4 ≤ sizeofCPUState := by cases r <;> decide
  unfold InBlock at hy
  unfold setReg
  rw [add32_eq (by omega), writeWord_of_out _ _ (by omega)]

/-- The answer of a system call is in the frame. -/
theorem answered_of_out (hp : Placed k ev) (hsys : ev.interrupt = syscallVector)
    (hy : ¬ Written k ev y) (m : Mem) (v : Nat) : setReg m ev.esp .ecx v y = m y := by
  have hframe := hp.frame hsys
  have hout : ¬ InBlock (ev.esp + 8, 4) y := fun hin => hy (.answer hsys hin)
  unfold InBlock at hout
  unfold sizeofCPUState at hframe
  show writeWord m (add32 ev.esp 8) v y = m y
  rw [add32_eq (by omega), writeWord_of_out _ _ (by omega)]

/-! ## §2. The system calls. -/

/-- The fields of an object at null are behind its frame. -/
theorem store_null_of_out {t : Task} (ht : t.stack = 0) (m : Mem) (hy : ¬ InBlock nullBytes y) :
    t.store m y = m y := by
  have hfield : ∀ (m : Mem) (offset v : Nat), offset ≤ 20 →
      writeWord m (add32 t.stack (stackSize + offset)) v y = m y := by
    intro m offset v hoff
    unfold InBlock nullBytes at hy
    apply writeWord_of_out
    rw [ht]
    unfold add32 stackSize
    omega
  unfold Task.store
  simp (disch := decide) only [hfield]

/-- A failed `new` fills the object at null only. -/
theorem failedNew_of_out {c : Nat} (heip : getReg k.mem c .eip ≠ 0) (hy : ¬ InBlock nullBytes y) :
    (failedNew k c).mem y = k.mem y := by
  unfold failedNew
  simp only
  rw [store_null_of_out (by rw [Task.construct_stack]) _ hy]
  refine construct_of_out heip (by decide) ?_
  unfold InBlock nullBytes at hy
  unfold stackSize
  omega

/-- The frame at the top of the stack of an object. -/
theorem top_frame {stack : Nat} (hs : stack + sizeofTask ≤ 2 ^ 32) :
    sub32 (add32 stack stackSize) sizeofCPUState = stack + 4044 := by
  have hbytes := task_sizes
  rw [add32_eq (by omega), sub32_eq (by omega) (by omega)]
  omega

/-- `execve` writes there. -/
theorem execve_of_out (entrypoint : Nat) (hs : k.current.stack + sizeofTask ≤ 2 ^ 32)
    (hy : ¬ InBlock (k.current.stack + 4044, sizeofCPUState) y) :
    (execveTask k entrypoint).1.mem y = k.mem y := by
  have hframe : ∀ (m : Mem) (r : Reg) (v : Nat),
      setReg m (sub32 (add32 k.current.stack stackSize) sizeofCPUState) r v y = m y := by
    intro m r v
    rw [top_frame hs]
    refine setReg_of_out m r v ?_ hy
    unfold sizeofTask at hs
    unfold sizeofCPUState
    omega
  unfold execveTask
  simp only [hframe]

/-- `fork` writes its answer, and one of two objects. -/
theorem forked_of_out (hp : Placed k ev) (hfork : CallsFork ev)
    (hy : ¬ Written k ev y) : (forked k ev).mem y = ev.mem y := by
  have hsys := hfork.1
  unfold forked
  simp only
  rw [answered_of_out hp hsys hy]
  by_cases hcan : CanFork { k with mem := ev.mem } ev.esp
  · cases halloc : ev.alloc with
    | none =>
      rw [forkTask_none hcan]
      exact failedNew_of_out hcan.2.2 fun hin => hy (.null ⟨hfork, hcan, halloc⟩ hin)
    | some a =>
      have hin := hp.fork hfork
      rw [forkTask_eq hcan]
      refine childMem_of_out (k := { k with mem := ev.mem }) ⟨hin.lo, hin.hi⟩ hcan.2.2
        (hp.object a halloc) (hp.caller hsys) ?_
      by_contra hin
      refine hy (.child hfork halloc ?_)
      unfold InBlock
      omega
  · rw [forkTask_early hcan]

/-! ## §3. Interrupts. -/

/-- **No other byte changes.** -/
theorem written_only (hk : Shape k) (he : Enabled k ev) (hp : Placed k ev) (hy : ¬ Written k ev y) :
    (DoHandleInterrupt k ev).1.mem y = ev.mem y := by
  have hint := interrupted k ev
  -- `Schedule` writes no memory
  have hcalls : ∀ k₁ c, scheduleCall k ev = some (k₁, c) → (k₁.Schedule c).1.mem = k₁.mem :=
    fun k₁ c hcall => schedule_mem (call_slots hk.toSlots he hcall) c
  generalize hanswer : DoHandleInterrupt k ev = answer at hint ⊢
  generalize scheduleCall k ev = call at hint hcalls
  cases hint with
  | exit =>
    rw [hcalls _ _ rfl]
    rfl
  | waits _ _ hb =>
    obtain ⟨_, _, _, _, _, heq⟩ := waitpidTask_blocks hb
    rw [hcalls _ _ rfl, heq]
    rfl
  | goesOn => rfl
  | fork hsys heax =>
    rw [hcalls _ _ rfl]
    exact forked_of_out hp ⟨hsys, heax⟩ hy
  | execve hsys heax =>
    exact execve_of_out (k := { k with mem := ev.mem }) _ (hp.caller hsys)
      fun hin => hy (.execve hsys heax hin)
  | timer => rw [hcalls _ _ rfl]
  | other m hm =>
    rcases hm with rfl | ⟨hsys, v, rfl⟩
    · rfl
    · exact answered_of_out hp hsys hy _ _

/-- The tasks keep their objects. -/
theorem object_kept (hk : Shape k) (he : Enabled k ev) {i : Nat} (hi : i < k.numTasks) :
    ((DoHandleInterrupt k ev).1.tasks i).stack = (k.tasks i).stack := by
  cases hcall : scheduleCall k ev with
  | some r =>
    obtain ⟨k₁, c⟩ := r
    obtain ⟨_, heq, hh⟩ := newFails_cases he hcall
    rw [heq]
    refine (congrArg Prod.fst (schedule_fixed (call_slots hk.toSlots he hcall) c i)).trans ?_
    rcases hh with hh | ⟨_, m, rfl⟩
    · exact congrArg Prod.fst (hh.fixed_eq hi)
    · show ((failedNew { k with mem := ev.mem } ev.esp).tasks i).stack = _
      rw [failedNew_task { k with mem := ev.mem } ev.esp hi]
      exact Task.afterNull_stack _ _ _ _ _
  | none => exact congrArg Prod.fst ((quiet_handled he hcall).fixed_eq hi)

/-- A new task has the new object. -/
theorem object_added (hk : Shape k) (he : Enabled k ev) {i : Nat} (hi : k.numTasks ≤ i)
    (hi' : i < (DoHandleInterrupt k ev).1.numTasks) : i = k.numTasks ∧ ∃ a, ev.alloc = some a
      ∧ ((DoHandleInterrupt k ev).1.tasks i).stack = a := by
  cases hcall : scheduleCall k ev with
  | some r =>
    obtain ⟨k₁, c⟩ := r
    obtain ⟨_, heq, _⟩ := newFails_cases he hcall
    have hslots := call_slots hk.toSlots he hcall
    rw [heq, schedule_numTasks hslots] at hi'
    obtain ⟨_, a, halloc, hn, hchild⟩ := scheduleCall_record hcall (by omega)
    obtain rfl : i = k.numTasks := by omega
    refine ⟨rfl, a, halloc, ?_⟩
    rw [heq]
    refine (congrArg Prod.fst (schedule_fixed hslots c k.numTasks)).trans ?_
    rw [hchild]
    rfl
  | none =>
    exfalso
    rcases quiet_cases he hcall with ⟨m, heq⟩ | ⟨_, m, c, heq⟩
    · rw [heq] at hi'
      exact absurd hi' (Nat.not_lt.mpr hi)
    · rw [heq] at hi'
      exact absurd hi' (Nat.not_lt.mpr hi)

end SystemOS.Kernel.HandlerMemory
