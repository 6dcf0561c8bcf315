/-
  SystemOS.Kernel.ForkFrame — what `forkTask` changes, and what it leaves alone.

  The constructor fills a frame at the top of the new stack, the copy of the caller's stack runs
  over it, and two registers of the copied frame are written through the pointer computed anew.
  Wherever the frame of the caller is, the copy wins over the constructor.

  Main results:
    * `childMem_of_out`  — no byte outside the stack of the child changes.
    * `forked_of_fresh`  — the tasks and their stacks stay, and the child is a copy of its parent
      but for `ecx` and `esp` of the frame.
    * `forkTask_frame_iff` — its pid is fresh as long as the counter has not come round.
-/
import SystemOS.Kernel.ForkStack

namespace SystemOS.Kernel.ForkFrame

open SystemOS.Lib.ByteMemory SystemOS.Lib.Transition
open SystemOS.Kernel.Multitasking SystemOS.Kernel.Multitasking.TaskManager
open SystemOS.Kernel.ScheduleCall SystemOS.Kernel.SchedulerRuns SystemOS.Kernel.Contexts
open SystemOS.Kernel.TaskTable SystemOS.Kernel.ForkCall SystemOS.Kernel.ForkStack

/-! ## §1. The new object. -/

/-- The object that `new Task` answers with is none of the tasks' objects, all of which are in the
    32-bit address space. -/
structure NewObject (k : TaskManager) (a : Nat) : Prop where
  fits : a + sizeofTask ≤ 2 ^ 32
  tasks_fit : ∀ j < k.numTasks, (k.tasks j).stack + sizeofTask ≤ 2 ^ 32
  apart : ∀ j < k.numTasks,
    a + sizeofTask ≤ (k.tasks j).stack ∨ (k.tasks j).stack + sizeofTask ≤ a

/-- The table `k'` is `k` with one task more: a copy of the parent, whose frame is at `c`, in the
    object at `a`. -/
structure Forked (k k' : TaskManager) (c a : Nat) : Prop where
  records : ∀ j < k.numTasks, k'.tasks j = k.tasks j
  memory : ∀ j < k.numTasks, ∀ i < stackSize,
    k'.mem ((k.tasks j).stack + i) = k.mem ((k.tasks j).stack + i)
  numTasks : k'.numTasks = k.numTasks + 1
  stack : (k'.tasks k.numTasks).stack = a
  copied : ∀ i < stackSize,
    (k.current.stack + i < c + 8 ∨ c + 12 ≤ k.current.stack + i) →
    (k.current.stack + i < c + 44 ∨ c + 48 ≤ k.current.stack + i) →
    k'.mem (a + i) = k.mem (k.current.stack + i)
  ecx : getReg k'.mem (k'.tasks k.numTasks).cpustate .ecx = 0
  esp : getReg k'.mem (k'.tasks k.numTasks).cpustate .esp
    = relocate k.current.stack a (getReg k.mem c .esp)
  cpustate : (k'.tasks k.numTasks).cpustate = a + (c - k.current.stack)
  ready : (k'.tasks k.numTasks).taskState = .READY
  ppid : (k'.tasks k.numTasks).ppid = k.current.pid
  gdt : (k'.tasks k.numTasks).gdt = k.current.gdt
  waitPid : (k'.tasks k.numTasks).waitPid = minusOne
  fresh : ∀ j < k.numTasks, (k.tasks j).pid ≠ (k'.tasks k.numTasks).pid

variable {k : TaskManager} {c a : Nat}

/-! ## §2. The frame. -/

/-- **No byte outside the stack of the child changes.** -/
theorem childMem_of_out (hin : InStack k c) (heip : getReg k.mem c .eip ≠ 0)
    (ha : a + sizeofTask ≤ 2 ^ 32) (hs : k.current.stack + sizeofTask ≤ 2 ^ 32) {x : Nat}
    (hx : x < a ∨ a + stackSize ≤ x) : childMem k c a x = k.mem x := by
  have h1 := hin.lo
  have h2 := hin.hi
  have hc := childOf_cpustate hin ha hs
  unfold sizeofTask sizeofCPUState stackSize at *
  -- both registers are inside
  unfold childMem
  rw [hc, setEspEcx_of_out _ _ _ (by omega) (by omega) (by omega), copyStack_of_out (by unfold stackSize; omega) (by unfold stackSize; omega),
    construct_of_out heip (by unfold stackSize; omega) (by unfold stackSize; omega)]

/-- What a fork leaves alone and what it adds, for a frame anywhere in the stack of the parent. -/
theorem forked_of_fresh (hslot : k.cur < k.numTasks) (m : Mem) (hlt : k.numTasks < 256)
    (hgdt : k.current.gdt ≠ 0) (heip : getReg m c .eip ≠ 0) (hin : InStack k c)
    (hnew : NewObject k a) (hfresh : ∀ j < k.numTasks, (k.tasks j).pid ≠ k.processCounter) :
    Forked { k with mem := m } (forkTask { k with mem := m } c (some a)).1 c a := by
  have hs : k.current.stack + sizeofTask ≤ 2 ^ 32 := hnew.tasks_fit _ hslot
  have hapart := hnew.apart _ hslot
  have hin' : InStack { k with mem := m } c := ⟨hin.lo, hin.hi⟩
  have hcan : CanFork { k with mem := m } c := ⟨hlt, hgdt, heip⟩
  rw [forkTask_eq hcan]
  have hchild : (withChild { k with mem := m } c a).tasks k.numTasks
      = childOf { k with mem := m } c a := setTask_self _ _ _
  constructor
  · exact fun j hj => setTask_of_ne _ _ (Nat.ne_of_lt hj)
  · -- another stack is outside the new object
    intro j hj i hi
    have hj' := hnew.apart j hj
    refine childMem_of_out hin' heip hnew.fits hs ?_
    unfold sizeofTask stackSize at *
    show (k.tasks j).stack + i < a ∨ a + 4096 ≤ (k.tasks j).stack + i
    omega
  · rfl
  · exact congrArg Task.stack hchild
  · intro i hi hecx hesp
    have hbyte := child_byte hin' heip hnew.fits hs hapart (x := k.current.stack + i)
      (Nat.le_add_right ..) (Nat.add_lt_add_left hi _) hecx hesp
    have hoff : k.current.stack + i - k.current.stack = i := Nat.add_sub_cancel_left ..
    change childMem _ c a (a + (k.current.stack + i - k.current.stack)) = _ at hbyte
    rwa [hoff] at hbyte
  · rw [hchild]
    exact read_write_self _ _ (by omega)
  · rw [hchild]
    exact child_esp hin' heip hnew.fits hs hapart
  · rw [hchild]
    exact childOf_cpustate hin' hnew.fits hs
  · rw [hchild]
    rfl
  · rw [hchild]
    rfl
  · rw [hchild]
    rfl
  · rw [hchild]
    rfl
  · intro j hj
    rw [hchild]
    exact hfresh j hj

/-- The child's pid is the counter, whatever the tasks are called. -/
theorem fresh_of_forked (m : Mem) (hcan : CanFork { k with mem := m } c)
    (h : Forked { k with mem := m } (forkTask { k with mem := m } c (some a)).1 c a) :
    ∀ j < k.numTasks, (k.tasks j).pid ≠ k.processCounter := by
  intro j hj
  have hfresh := h.fresh j hj
  have hchild : (withChild { k with mem := m } c a).tasks k.numTasks
      = childOf { k with mem := m } c a := setTask_self _ _ _
  rw [forkTask_eq hcan] at hfresh
  change (k.tasks j).pid ≠ ((withChild { k with mem := m } c a).tasks k.numTasks).pid at hfresh
  rwa [hchild] at hfresh

/-- **What a fork leaves alone and what it adds**: all of this exactly when the counter, which has
    also counted failed `new`s, is the pid of no task. -/
theorem forkTask_frame_iff (hk : taskSystem.Reachable k) (m : Mem) (hlt : k.numTasks < 256)
    (hcur : 0 ≤ k.currentTask) (hgdt : k.current.gdt ≠ 0) (heip : getReg m c .eip ≠ 0)
    (hin : InStack k c) (hnew : NewObject k a) :
    Forked { k with mem := m } (forkTask { k with mem := m } c (some a)).1 c a
      ↔ ∀ j < k.numTasks, (k.tasks j).pid ≠ k.processCounter := by
  constructor
  · exact fresh_of_forked m ⟨hlt, hgdt, heip⟩
  · exact forked_of_fresh (cur_lt (slots_reachable hk) hcur) m hlt hgdt heip hin hnew

/-! ## §3. Forks of the family and of an init task. -/

/-- The grandchild forks into an object at 6 MiB; its frame is 12 bytes below the place of the
    constructor's one, and overlaps it. -/
theorem forkTask_frame_family : Forked { family with mem := forkFrame 0x500FC0 }
    (forkTask { family with mem := forkFrame 0x500FC0 } 0x500FC0 (some 0x600000)).1
      0x500FC0 0x600000 := by
  have hk : taskSystem.Reachable family :=
    reachable_after (S := taskSystem) rfl (bootOver_setup _) births_follow
  have heip : getReg (forkFrame 0x500FC0) 0x500FC0 .eip ≠ 0 := by
    rw [forkFrame_eip (by omega)]
    decide
  refine (forkTask_frame_iff hk (forkFrame 0x500FC0) ?_ ?_ ?_ heip ⟨?_, ?_⟩ ⟨?_, ?_, ?_⟩).mpr ?_
  all_goals decide +kernel

/-- After 2^32 - 1 failed forks the counter is back at the pid of the init task. -/
theorem child_called_init : ¬ ∀ (k : TaskManager) (m : Mem) (c a : Nat), taskSystem.Reachable k →
    k.numTasks < 256 → 0 ≤ k.currentTask → k.current.gdt ≠ 0 → getReg m c .eip ≠ 0 → InStack k c →
    NewObject k a → Forked { k with mem := m } (forkTask { k with mem := m } c (some a)).1 c a := by
  intro hclaim
  obtain ⟨k, hk⟩ := counter_comes_round (2 ^ 32 - 1)
  obtain ⟨evs, hrun⟩ := hk.run
  have hcan := hk.canFork none
  have hstack : (k.tasks 0).stack = 0x200000 := congrArg Prod.fst hk.record
  have hcurrent : k.current.stack = 0x200000 := by
    show (k.tasks k.cur).stack = _
    rw [hk.cur, hstack]
  have hzero : ∀ j < k.numTasks, j = 0 := fun j hj => Nat.lt_one_iff.mp (hk.numTasks ▸ hj)
  have hforked := hclaim k _ _ 0x400000 (hrun.reachable (.start (bootOver_setup _))) hcan.1
    hk.current.ge hcan.2.1 hcan.2.2 ⟨?_, ?_⟩ ⟨by decide, fun j hj => ?_, fun j hj => ?_⟩
  · have hpid : (k.tasks 0).pid = 0 := congrArg (fun t => t.2.1) hk.record
    refine fresh_of_forked _ hcan hforked 0 ?_ (hpid.trans hk.counter.symm)
    rw [hk.numTasks]
    decide
  · rw [hcurrent]
    decide
  · rw [hcurrent]
    decide
  · rw [hzero j hj, hstack]
    decide
  · rw [hzero j hj, hstack]
    decide

end SystemOS.Kernel.ForkFrame
