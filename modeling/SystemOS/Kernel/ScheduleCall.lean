/-
  SystemOS.Kernel.ScheduleCall — what one interrupt does to the task table.

  An interrupt either ends in a call of `Schedule` or returns without one; `scheduleCall` says with
  which table and which frame `Schedule` is called.  A fork whose `new` fails runs the constructor on
  the null pointer; `SparesTasks` says that no record of the table lies there.  Six lemmas describe
  every step once and for all, and later proofs only use these:

    * `interrupted`        — what an interrupt can be, with its call and its answer.
    * `scheduleCall_cases` — the table `Schedule` is called with (`Handled`).
    * `newFails_cases`     — the same for a fork whose `new` fails over any records.
    * `quiet_cases`        — the table after an interrupt that does not schedule.
    * `interrupt_cases`    — both, for an invariant of all interrupts.
    * `schedule_cases`     — what `Schedule` does: it selects the first runnable slot in cyclic
      order, or finds none and returns the interrupted frame.
-/
import SystemOS.Kernel.Multitasking
import SystemOS.Lib.RoundRobin

namespace SystemOS.Kernel.ScheduleCall

open SystemOS.Lib.ByteMemory SystemOS.Lib.RoundRobin SystemOS.Kernel.Multitasking
open SystemOS.Kernel.Multitasking.TaskManager

/-! ## §1. The shape of a task table. -/

/-- Slot `j` is the slot of a pid: the first one with it. -/
def Finds (k : TaskManager) (pid j : Nat) : Prop :=
  j < k.numTasks ∧ (k.tasks j).pid = pid ∧ ∀ l < j, (k.tasks l).pid ≠ pid

instance (k : TaskManager) (pid : Nat) : DecidablePred (Finds k pid) := fun j => by
  unfold Finds
  infer_instance

/-- Slot `i` is runnable: READY, or WAITING on a pid whose task is FINISHED. -/
def Runnable (k : TaskManager) (i : Nat) : Prop :=
  i < k.numTasks ∧ ((k.tasks i).taskState = .READY
    ∨ (k.tasks i).taskState = .WAITING ∧ ∃ j < k.numTasks, Finds k (k.tasks i).waitPid j
        ∧ (k.tasks j).taskState = .FINISHED)

instance (k : TaskManager) : DecidablePred (Runnable k) := fun i => by
  unfold Runnable
  infer_instance

/-- The table has its size, and the current task is a slot of it, or none. -/
structure Slots (k : TaskManager) : Prop where
  le : k.numTasks ≤ 256
  lo : -1 ≤ k.currentTask
  hi : k.currentTask < k.numTasks

/-- What every table has once the init task is in it, also in the middle of an interrupt. -/
structure Shape (k : TaskManager) : Prop extends Slots k where
  pos : 0 < k.numTasks

theorem Shape.cur_lt {k : TaskManager} (h : Shape k) : k.cur < k.numTasks := by
  have h1 := h.hi
  have h2 := h.pos
  unfold cur
  omega

theorem Finds.unique {k : TaskManager} {pid i j : Nat} (hi : Finds k pid i) (hj : Finds k pid j) :
    i = j := by
  rcases Nat.lt_trichotomy i j with hlt | heq | hgt
  · exact absurd hi.2.1 (hj.2.2 i hlt)
  · exact heq
  · exact absurd hj.2.1 (hi.2.2 j hgt)

/-- A table that keeps the pids and may have grown has the slots of before. -/
theorem Finds.mono {k k' : TaskManager} {pid j : Nat} (h : Finds k pid j)
    (hn : k.numTasks ≤ k'.numTasks) (hpid : ∀ i < k.numTasks, (k'.tasks i).pid = (k.tasks i).pid) :
    Finds k' pid j := by
  obtain ⟨hj, heq, hfirst⟩ := h
  refine ⟨by omega, (hpid j hj).trans heq, fun l hl => ?_⟩
  rw [hpid l (by omega)]
  exact hfirst l hl

/-- `getTaskIndex` finds the slot, or there is none. -/
theorem getTaskIndexFrom_cases (k : TaskManager) (pid : Nat) : ∀ fuel i,
    (∃ j < i + fuel, k.getTaskIndexFrom pid fuel i = j ∧ (k.tasks j).pid = pid
        ∧ ∀ l, i ≤ l → l < j → (k.tasks l).pid ≠ pid)
      ∨ k.getTaskIndexFrom pid fuel i = minusOne ∧ ∀ j, i ≤ j → j < i + fuel → (k.tasks j).pid ≠ pid
  | 0, _ => .inr ⟨rfl, by omega⟩
  | fuel + 1, i => by
      unfold getTaskIndexFrom
      by_cases h : (k.tasks i).pid = pid
      · exact .inl ⟨i, by omega, if_pos h, h, by omega⟩
      -- slot `i` is not the one: the rest of the loop decides
      have hrest : ∀ n, (∀ l, i + 1 ≤ l → l < n → (k.tasks l).pid ≠ pid) →
          ∀ l, i ≤ l → l < n → (k.tasks l).pid ≠ pid := by
        intro n hn l hil hl
        rcases Nat.eq_or_lt_of_le hil with rfl | hlt
        · exact h
        · exact hn l hlt hl
      rw [if_neg h]
      rcases getTaskIndexFrom_cases k pid fuel (i + 1) with ⟨j, hj, hr, hp, hfirst⟩ | ⟨hr, hnone⟩
      · exact .inl ⟨j, by omega, hr, hp, hrest j hfirst⟩
      · exact .inr ⟨hr, hrest _ fun l hl hlt => hnone l hl (by omega)⟩

theorem getTaskIndex_cases (k : TaskManager) (pid : Nat) :
    (∃ j, Finds k pid j ∧ k.getTaskIndex pid = j)
      ∨ k.getTaskIndex pid = minusOne ∧ ∀ j < k.numTasks, (k.tasks j).pid ≠ pid := by
  rcases getTaskIndexFrom_cases k pid k.numTasks 0 with ⟨j, hj, hr, hp, hfirst⟩ | ⟨hr, hnone⟩
  · exact .inl ⟨j, ⟨by omega, hp, fun l hl => hfirst l (Nat.zero_le l) hl⟩, hr⟩
  · exact .inr ⟨hr, fun j hj => hnone j (Nat.zero_le j) (by omega)⟩

theorem slot_ne_minusOne {k : TaskManager} (h : Slots k) {j : Nat} (hj : j < k.numTasks) :
    j ≠ minusOne := by
  have := h.le
  unfold minusOne
  omega

/-! ## §2. The unblocking test and the scan. -/

theorem unblock_of_runnable {k : TaskManager} (h : Slots k) {i : Nat} (hr : Runnable k i) :
    ∃ w, k.unblock i = k.setTask i { k.tasks i with taskState := .READY, waitPid := w } := by
  obtain ⟨hi, hready | ⟨hwait, j, hj, hfinds, hfin⟩⟩ := hr
  · -- a READY task is not touched
    refine ⟨(k.tasks i).waitPid, ?_⟩
    unfold unblock
    rw [if_neg (by rw [hready]; decide), ← hready]
    unfold setTask
    rw [Function.update_eq_self]
  · refine ⟨0, ?_⟩
    unfold unblock
    rw [if_pos hwait]
    rcases getTaskIndex_cases k (k.tasks i).waitPid with ⟨l, hl, hidx⟩ | ⟨_, hnone⟩
    · obtain rfl := hl.unique hfinds
      simp only [hidx]
      rw [if_pos ⟨slot_ne_minusOne h hj, hfin⟩]
    · exact absurd hfinds.2.1 (hnone j hj)

theorem unblock_of_not_runnable {k : TaskManager} {i : Nat} (hi : i < k.numTasks)
    (hr : ¬ Runnable k i) : k.unblock i = k ∧ (k.tasks i).taskState ≠ .READY := by
  have hnr : (k.tasks i).taskState ≠ .READY := fun h => hr ⟨hi, .inl h⟩
  refine ⟨?_, hnr⟩
  unfold unblock
  by_cases hwait : (k.tasks i).taskState = .WAITING
  · rw [if_pos hwait]
    rcases getTaskIndex_cases k (k.tasks i).waitPid with ⟨l, hl, hidx⟩ | ⟨hidx, _⟩
    · simp only [hidx]
      rw [if_neg fun hc => hr ⟨hi, .inr ⟨hwait, l, hl.1, hl, hc.2⟩⟩]
    · simp only [hidx]
      rw [if_neg fun hc => hc.1 rfl]
  · rw [if_neg hwait]

/-- The scan of `Schedule` is a cyclic search for a runnable slot. -/
theorem scanTasks_eq {k : TaskManager} (h : Slots k) (c : Nat) : ∀ fuel {s : Nat}, s < k.numTasks →
    k.scanTasks c fuel s = match cyclicFind (Runnable k) k.numTasks fuel s with
      | some i => ({ k.unblock i with currentTask := i }, ((k.unblock i).tasks i).cpustate)
      | none => (k, c)
  | 0, _, _ => rfl
  | fuel + 1, s, hs => by
      unfold scanTasks cyclicFind
      -- after the unblocking test a slot is READY exactly when it was runnable
      by_cases hr : Runnable k s
      · obtain ⟨w, hw⟩ := unblock_of_runnable h hr
        simp only [if_pos hr]
        rw [if_pos (by rw [hw, setTask_self])]
      · obtain ⟨hsame, hnr⟩ := unblock_of_not_runnable hs hr
        simp only [if_neg hr, hsame]
        rw [if_neg hnr, scanTasks_eq h c fuel (Nat.mod_lt _ (Nat.zero_lt_of_lt hs))]

/-! ## §3. `Schedule`. -/

/-- Saving a context changes `cpustate` fields only. -/
theorem saveContext_task (k : TaskManager) (c i : Nat) :
    ∃ c', (k.saveContext c).tasks i = { k.tasks i with cpustate := c' } := by
  unfold saveContext
  by_cases hc : 0 ≤ k.currentTask
  · rw [if_pos hc]
    by_cases hi : i = k.cur
    · subst hi
      exact ⟨c, setTask_self ..⟩
    · exact ⟨(k.tasks i).cpustate, setTask_of_ne _ _ hi⟩
  · rw [if_neg hc]
    exact ⟨_, rfl⟩

@[simp] theorem saveContext_taskState (k : TaskManager) (c i : Nat) :
    ((k.saveContext c).tasks i).taskState = (k.tasks i).taskState := by
  obtain ⟨_, h⟩ := saveContext_task k c i
  rw [h]

@[simp] theorem saveContext_waitPid (k : TaskManager) (c i : Nat) :
    ((k.saveContext c).tasks i).waitPid = (k.tasks i).waitPid := by
  obtain ⟨_, h⟩ := saveContext_task k c i
  rw [h]

@[simp] theorem saveContext_pid (k : TaskManager) (c i : Nat) :
    ((k.saveContext c).tasks i).pid = (k.tasks i).pid := by
  obtain ⟨_, h⟩ := saveContext_task k c i
  rw [h]

@[simp] theorem saveContext_numTasks (k : TaskManager) (c : Nat) :
    (k.saveContext c).numTasks = k.numTasks := by
  unfold saveContext
  split <;> rfl

@[simp] theorem saveContext_currentTask (k : TaskManager) (c : Nat) :
    (k.saveContext c).currentTask = k.currentTask := by
  unfold saveContext
  split <;> rfl

@[simp] theorem saveContext_processCounter (k : TaskManager) (c : Nat) :
    (k.saveContext c).processCounter = k.processCounter := by
  unfold saveContext
  split <;> rfl

theorem saveContext_runnable (k : TaskManager) (c : Nat) :
    Runnable (k.saveContext c) = Runnable k := by
  funext i
  simp [Runnable, Finds]

theorem Slots.saveContext {k : TaskManager} (h : Slots k) (c : Nat) : Slots (k.saveContext c) where
  le := by simpa using h.le
  lo := by simpa using h.lo
  hi := by simpa using h.hi

theorem Shape.saveContext {k : TaskManager} (h : Shape k) (c : Nat) : Shape (k.saveContext c) where
  toSlots := h.toSlots.saveContext c
  pos := by simpa using h.pos

/-- The table after slot `i` has been selected. -/
def select (k : TaskManager) (c i w : Nat) : TaskManager :=
  { (k.saveContext c).setTask i
      { (k.saveContext c).tasks i with taskState := .READY, waitPid := w } with currentTask := i }

/-- **What `Schedule` does.** -/
theorem schedule_cases {k : TaskManager} (h : Slots k) (c : Nat) :
    (∃ d i w, FirstAt (Runnable k) k.numTasks (startAfter k.numTasks k.currentTask) d i
        ∧ k.Schedule c = (select k c i w, ((k.saveContext c).tasks i).cpustate))
      ∨ (∀ i, ¬ Runnable k i) ∧ k.Schedule c = (k.saveContext c, c) := by
  rcases Nat.eq_zero_or_pos k.numTasks with hzero | hpos
  · -- an empty table has no current task whose context would be saved
    right
    refine ⟨fun i hi => by have := hi.1; omega, ?_⟩
    unfold TaskManager.Schedule TaskManager.saveContext
    rw [if_pos hzero, if_neg (by have := h.hi; omega)]
  have h' := h.saveContext c
  have hs := startAfter_lt (c := k.currentTask) hpos
  have heq : k.Schedule c = (k.saveContext c).scanTasks c k.numTasks
      (startAfter k.numTasks k.currentTask) := by
    unfold TaskManager.Schedule startAfter
    rw [if_neg (by omega)]
    simp only [saveContext_numTasks, saveContext_currentTask]
  rw [scanTasks_eq h' c k.numTasks (by simpa using hs)] at heq
  -- saving the context does not change which slots are runnable
  simp only [saveContext_numTasks, saveContext_runnable] at heq
  cases hf : cyclicFind (Runnable k) k.numTasks k.numTasks
      (startAfter k.numTasks k.currentTask) with
  | some i =>
    left
    obtain ⟨d, hfirst⟩ := cyclicFind_eq_some hs hf
    obtain ⟨w, hw⟩ := unblock_of_runnable h' (i := i) (by rw [saveContext_runnable]; exact hfirst.holds)
    refine ⟨d, i, w, hfirst, ?_⟩
    rw [heq, hf]
    simp only [hw, setTask_self]
    rfl
  | none =>
    right
    refine ⟨fun i hr => cyclicFind_eq_none hs hf i hr.1 hr, ?_⟩
    rw [heq, hf]

/-! ## §4. The call. -/

/-- The table and the frame with which an interrupt calls `Schedule`, if it does. -/
def scheduleCall (k : TaskManager) (ev : Event) : Option (TaskManager × Nat) :=
  let k := { k with mem := ev.mem }
  if ev.interrupt = syscallVector then
    match getReg ev.mem ev.esp .eax with
    | 1 => some (exitTask k, ev.esp)
    | 7 => if (waitpidTask k ev.esp).2 then some ((waitpidTask k ev.esp).1, ev.esp) else none
    | 2 =>
      let (k, pid) := forkTask k ev.esp ev.alloc
      some ({ k with mem := setReg k.mem ev.esp .ecx pid }, ev.esp)
    | _ => none
  else if ev.interrupt = timerVector then some (k, ev.esp)
  else none

/-- System calls come from the task that is running. -/
def Enabled (k : TaskManager) (ev : Event) : Prop :=
  ev.interrupt = syscallVector → 0 ≤ k.currentTask

/-- The interrupt is the system call `fork`. -/
def CallsFork (ev : Event) : Prop :=
  ev.interrupt = syscallVector ∧ getReg ev.mem ev.esp .eax = 2

/-- `forkTask` gets to `new Task`: a free slot, a table and an entry point to hand to it. -/
def CanFork (k : TaskManager) (c : Nat) : Prop :=
  k.numTasks < 256 ∧ k.current.gdt ≠ 0 ∧ getReg k.mem c .eip ≠ 0

/-- The interrupt is a `fork` whose `new` answers a null pointer. -/
def NewFails (k : TaskManager) (ev : Event) : Prop :=
  CallsFork ev ∧ CanFork { k with mem := ev.mem } ev.esp ∧ ev.alloc = none

/-- If the interrupt is a `fork` whose `new` fails, the object at null that the constructor fills
    shares no byte with the record of a task. -/
def SparesTasks (k : TaskManager) (ev : Event) : Prop :=
  NewFails k ev → ∀ i < k.numTasks, (k.tasks i).ClearOfNull

instance (k : TaskManager) (ev : Event) : Decidable (Enabled k ev) := by
  unfold Enabled
  infer_instance

instance (k : TaskManager) (ev : Event) : Decidable (SparesTasks k ev) := by
  unfold SparesTasks NewFails CallsFork CanFork
  infer_instance

/-- What a handler leaves behind before `Schedule` is called, if it is, where the record of no task
    lies under the object at null. -/
inductive Handled (k : TaskManager) : TaskManager → Prop
  | same (m : Mem) : Handled k { k with mem := m }
  | exited (m : Mem) : 0 ≤ k.currentTask →
      Handled k { k.setCurrent { k.current with taskState := .FINISHED } with mem := m }
  | blocked (m : Mem) {pid j : Nat} (c : Nat) : 0 ≤ k.currentTask → Finds k pid j →
      (k.tasks j).taskState ≠ .FINISHED → pid ≠ k.current.pid →
      Handled k { k.setCurrent { k.current with
        taskState := .WAITING, waitPid := pid, cpustate := c } with mem := m }
  | readied (m : Mem) (c : Nat) : 0 ≤ k.currentTask →
      Handled k { k.setCurrent { k.current with taskState := .READY, cpustate := c } with mem := m }
  | spared (m : Mem) (tasks : Nat → Task) (counter : Nat) : (∀ i < k.numTasks, tasks i = k.tasks i) →
      Handled k { k with tasks := tasks, processCounter := counter, mem := m }
  | forked (m : Mem) {child : Task} : k.numTasks < 256 → child.taskState = .READY →
      child.pid = k.processCounter →
      Handled k { k.setTask k.numTasks child with
        numTasks := k.numTasks + 1, processCounter := add32 k.processCounter 1, mem := m }

/-- `waitpidTask` blocks the caller on the task of the pid, which is another and not FINISHED. -/
theorem waitpidTask_blocks {k : TaskManager} {esp : Nat} (h : (k.waitpidTask esp).2 = true) :
    ∃ j, Finds k (getReg k.mem esp .ebx) j
      ∧ (k.tasks j).taskState ≠ .FINISHED ∧ getReg k.mem esp .ebx ≠ k.current.pid
      ∧ getReg k.mem esp .ebx ≠ 0
      ∧ (k.waitpidTask esp).1 = k.setCurrent { k.current with
          taskState := .WAITING, waitPid := getReg k.mem esp .ebx, cpustate := esp } := by
  unfold waitpidTask at h ⊢
  simp only at h ⊢
  -- the early returns answer false
  split at h
  · simp at h
  next hself =>
  rw [if_neg hself]
  rw [not_or] at hself
  rcases getTaskIndex_cases k (getReg k.mem esp .ebx) with ⟨j, hj, hidx⟩ | ⟨hidx, _⟩
  · rw [hidx] at h ⊢
    split at h
    · simp at h
    next hne =>
    split at h
    · simp at h
    next hfin =>
    rw [if_neg hne, if_neg hfin]
    exact ⟨j, hj, hfin, hself.1, hself.2, rfl⟩
  · rw [hidx, if_pos rfl] at h
    simp at h

/-- The table that `forkTask` leaves when `new` fails. -/
def failedNew (k : TaskManager) (c : Nat) : TaskManager :=
  let built := Task.construct k.mem k.processCounter 0 k.current.gdt (getReg k.mem c .eip)
  let tasks := fun i =>
    (k.tasks i).afterNull k.mem k.processCounter k.current.gdt (getReg k.mem c .eip)
  { k with
      tasks := Function.update tasks k.numTasks built.2.2
      processCounter := built.2.1
      mem := built.2.2.store built.1 }

theorem forkTask_none {k : TaskManager} {c : Nat} (h : CanFork k c) :
    k.forkTask c none = (failedNew k c, minusOne) := by
  obtain ⟨hlt, hgdt, heip⟩ := h
  unfold forkTask
  rw [if_neg (Nat.not_le.mpr hlt)]
  simp only
  rw [if_neg (not_or.mpr ⟨hgdt, heip⟩)]
  rfl

/-- A slot of the table after the constructor has run on the null pointer. -/
theorem failedNew_task (k : TaskManager) (c : Nat) {i : Nat} (hi : i < k.numTasks) :
    (failedNew k c).tasks i
      = (k.tasks i).afterNull k.mem k.processCounter k.current.gdt (getReg k.mem c .eip) := by
  unfold failedNew
  simp only
  rw [Function.update_of_ne (Nat.ne_of_lt hi)]

/-- Without a free slot, a table or an entry point `forkTask` does nothing. -/
theorem forkTask_early {k : TaskManager} {c : Nat} (h : ¬ CanFork k c) (alloc : Option Nat) :
    (k.forkTask c alloc).1 = k := by
  unfold forkTask
  by_cases hfull : 256 ≤ k.numTasks
  · rw [if_pos hfull]
  · have hnone : k.current.gdt = 0 ∨ getReg k.mem c .eip = 0 := by
      by_contra hsome
      exact h ⟨Nat.lt_of_not_le hfull, not_or.mp hsome⟩
    rw [if_neg hfull]
    simp only
    rw [if_pos hnone]

/-- `forkTask` leaves the table alone, runs the constructor on the null pointer, or appends a READY
    child. -/
theorem forkTask_cases (k : TaskManager) (c : Nat) (alloc : Option Nat) :
    (k.forkTask c alloc).1 = k
      ∨ (CanFork k c ∧ alloc = none) ∧ (k.forkTask c alloc).1 = failedNew k c
      ∨ k.numTasks < 256 ∧ ∃ m child, child.taskState = .READY ∧ child.pid = k.processCounter
        ∧ (k.forkTask c alloc).1 = { k.setTask k.numTasks child with
            numTasks := k.numTasks + 1, processCounter := add32 k.processCounter 1, mem := m } := by
  by_cases hcan : CanFork k c
  · cases alloc with
    | none => exact .inr (.inl ⟨⟨hcan, rfl⟩, by rw [forkTask_none hcan]⟩)
    | some a =>
      refine .inr (.inr ⟨hcan.1, ?_⟩)
      unfold forkTask
      rw [if_neg (Nat.not_le.mpr hcan.1)]
      simp only
      rw [if_neg (not_or.mpr hcan.2)]
      exact ⟨_, _, rfl, rfl, rfl⟩
  · exact .inl (forkTask_early hcan alloc)

/-- The table that `fork` leaves, with its answer in the caller's context. -/
def forked (k : TaskManager) (ev : Event) : TaskManager :=
  let r := forkTask { k with mem := ev.mem } ev.esp ev.alloc
  { r.1 with mem := setReg r.1.mem ev.esp .ecx r.2 }

/-- What an interrupt can be: the table and the frame with which it calls `Schedule`, if it does,
    and what the handler answers. -/
inductive Interrupted (k : TaskManager) (ev : Event) :
    Option (TaskManager × Nat) → TaskManager × Nat → Prop
  | exit : ev.interrupt = syscallVector → getReg ev.mem ev.esp .eax = 1 →
      Interrupted k ev (some (exitTask { k with mem := ev.mem }, ev.esp))
        ((exitTask { k with mem := ev.mem }).Schedule ev.esp)
  | waits : ev.interrupt = syscallVector → getReg ev.mem ev.esp .eax = 7 →
      (waitpidTask { k with mem := ev.mem } ev.esp).2 = true →
      Interrupted k ev (some ((waitpidTask { k with mem := ev.mem } ev.esp).1, ev.esp))
        ((waitpidTask { k with mem := ev.mem } ev.esp).1.Schedule ev.esp)
  | goesOn : ev.interrupt = syscallVector → getReg ev.mem ev.esp .eax = 7 →
      (waitpidTask { k with mem := ev.mem } ev.esp).2 ≠ true →
      Interrupted k ev none ({ k with mem := ev.mem }, ev.esp)
  | fork : ev.interrupt = syscallVector → getReg ev.mem ev.esp .eax = 2 →
      Interrupted k ev (some (forked k ev, ev.esp)) ((forked k ev).Schedule ev.esp)
  | execve : ev.interrupt = syscallVector → getReg ev.mem ev.esp .eax = 11 →
      Interrupted k ev none (execveTask { k with mem := ev.mem } (getReg ev.mem ev.esp .ebx))
  | timer : ev.interrupt ≠ syscallVector →
      Interrupted k ev (some ({ k with mem := ev.mem }, ev.esp))
        (Schedule { k with mem := ev.mem } ev.esp)
  | other (m : Mem) :
      (m = ev.mem ∨ ev.interrupt = syscallVector ∧ ∃ v, m = setReg ev.mem ev.esp .ecx v) →
      (ev.interrupt = syscallVector → getReg ev.mem ev.esp .eax ≠ 7
        ∧ getReg ev.mem ev.esp .eax ≠ 11 ∧ getReg ev.mem ev.esp .eax ≠ 2) →
      Interrupted k ev none ({ k with mem := m }, ev.esp)

/-- A `waitpid` that does not block leaves the table as it is. -/
theorem waitpidTask_goesOn {k : TaskManager} {esp : Nat} (h : (k.waitpidTask esp).2 ≠ true) :
    (k.waitpidTask esp).1 = k := by
  unfold waitpidTask at h ⊢
  simp only at h ⊢
  split_ifs at h ⊢ <;> first | rfl | exact absurd rfl h

/-- **One interrupt.** -/
theorem interrupted (k : TaskManager) (ev : Event) :
    Interrupted k ev (scheduleCall k ev) (DoHandleInterrupt k ev) := by
  unfold scheduleCall DoHandleInterrupt SyscallHandler.HandleInterrupt
  simp only
  by_cases hsys : ev.interrupt = syscallVector
  · rw [if_pos hsys, if_pos hsys]
    by_cases hexit : getReg ev.mem ev.esp .eax = 1
    · rw [hexit]
      exact .exit hsys hexit
    by_cases hwait : getReg ev.mem ev.esp .eax = 7
    · rw [hwait]
      simp only
      by_cases hb : (waitpidTask { k with mem := ev.mem } ev.esp).2 = true
      · rw [if_pos hb, if_pos hb]
        exact .waits hsys hwait hb
      · rw [if_neg hb, if_neg hb, waitpidTask_goesOn hb]
        exact .goesOn hsys hwait hb
    by_cases hfork : getReg ev.mem ev.esp .eax = 2
    · rw [hfork]
      exact .fork hsys hfork
    by_cases hexec : getReg ev.mem ev.esp .eax = 11
    · rw [hexec]
      exact .execve hsys hexec
    split
    · next heax => exact absurd heax hexit
    · next heax => exact absurd heax hwait
    · next heax => exact absurd heax hfork
    · -- getpid, and the numbers without a case
      split
      · next heax => exact absurd heax hexit
      · next heax => exact absurd heax hwait
      · next heax => exact absurd heax hexec
      · exact .other _ (.inr ⟨hsys, _, rfl⟩) fun _ => ⟨hwait, hexec, hfork⟩
      · next heax => exact absurd heax hfork
      · exact .other _ (.inl rfl) fun _ => ⟨hwait, hexec, hfork⟩
  · rw [if_neg hsys, if_neg hsys]
    by_cases htimer : ev.interrupt = timerVector
    · rw [if_pos htimer, if_pos htimer]
      exact .timer hsys
    · rw [if_neg htimer, if_neg htimer]
      exact .other ev.mem (.inl rfl) fun h => absurd h hsys

/-- **The calls of `Schedule`**, over any records. -/
theorem newFails_cases {k k₁ : TaskManager} {ev : Event} {c : Nat} (he : Enabled k ev)
    (h : scheduleCall k ev = some (k₁, c)) :
    c = ev.esp ∧ DoHandleInterrupt k ev = k₁.Schedule c
      ∧ (Handled k k₁ ∨ NewFails k ev
          ∧ ∃ m, k₁ = { failedNew { k with mem := ev.mem } ev.esp with mem := m }) := by
  have hint := interrupted k ev
  rw [h] at hint
  generalize DoHandleInterrupt k ev = answer at hint ⊢
  cases hint with
  | exit hsys _ => exact ⟨rfl, rfl, .inl (.exited ev.mem (he hsys))⟩
  | waits hsys _ hb =>
    obtain ⟨j, hj, hfin, hne, _, heq⟩ := waitpidTask_blocks hb
    refine ⟨rfl, rfl, .inl ?_⟩
    rw [heq]
    exact .blocked ev.mem ev.esp (he hsys) hj hfin hne
  | fork hsys heax =>
    refine ⟨rfl, rfl, ?_⟩
    unfold forked
    simp only
    rcases forkTask_cases { k with mem := ev.mem } ev.esp ev.alloc with
      heq | ⟨⟨hcan, hnone⟩, heq⟩ | ⟨hlt, m, child, hst, hpid, heq⟩
    · rw [heq]
      exact .inl (.same _)
    · rw [heq]
      exact .inr ⟨⟨⟨hsys, heax⟩, hcan, hnone⟩, _, rfl⟩
    · rw [heq]
      exact .inl (.forked _ hlt hst hpid)
  | timer _ => exact ⟨rfl, rfl, .inl (.same ev.mem)⟩

/-- **The calls of `Schedule`**, where no record lies under the object at null. -/
theorem scheduleCall_cases {k k₁ : TaskManager} {ev : Event} {c : Nat} (he : Enabled k ev)
    (hs : SparesTasks k ev) (h : scheduleCall k ev = some (k₁, c)) :
    c = ev.esp ∧ DoHandleInterrupt k ev = k₁.Schedule c ∧ Handled k k₁ := by
  obtain ⟨hc, heq, hh | ⟨hfails, m, rfl⟩⟩ := newFails_cases he h
  · exact ⟨hc, heq, hh⟩
  · refine ⟨hc, heq, .spared _ _ _ fun i hi => ?_⟩
    rw [failedNew_task { k with mem := ev.mem } ev.esp hi]
    exact Task.afterNull_of_clear (hs hfails i hi) _ _ _ _

/-- **The interrupts that do not schedule**: the table stays, or `execve` makes the caller READY. -/
theorem quiet_cases {k : TaskManager} {ev : Event} (he : Enabled k ev)
    (h : scheduleCall k ev = none) :
    (∃ m, (DoHandleInterrupt k ev).1 = { k with mem := m })
      ∨ 0 ≤ k.currentTask ∧ ∃ m c, (DoHandleInterrupt k ev).1 =
          { k.setCurrent { k.current with taskState := .READY, cpustate := c } with mem := m } := by
  have hint := interrupted k ev
  rw [h] at hint
  generalize DoHandleInterrupt k ev = answer at hint ⊢
  cases hint with
  | goesOn => exact .inl ⟨_, rfl⟩
  | execve hsys _ => exact .inr ⟨he hsys, _, _, rfl⟩
  | other m => exact .inl ⟨m, rfl⟩

theorem quiet_handled {k : TaskManager} {ev : Event} (he : Enabled k ev)
    (h : scheduleCall k ev = none) : Handled k (DoHandleInterrupt k ev).1 := by
  rcases quiet_cases he h with ⟨m, heq⟩ | ⟨hcur, m, c, heq⟩
  · rw [heq]
    exact .same m
  · rw [heq]
    exact .readied m c hcur

/-- **An interrupt is handled**, and then `Schedule` is called, or it is not. -/
theorem interrupt_cases {k : TaskManager} {ev : Event} (he : Enabled k ev)
    (hs : SparesTasks k ev) :
    (∃ k₁, scheduleCall k ev = some (k₁, ev.esp) ∧ DoHandleInterrupt k ev = k₁.Schedule ev.esp
        ∧ Handled k k₁)
      ∨ scheduleCall k ev = none ∧ Handled k (DoHandleInterrupt k ev).1 := by
  cases hcall : scheduleCall k ev with
  | some r =>
    obtain ⟨k₁, c⟩ := r
    obtain ⟨rfl, heq, hh⟩ := scheduleCall_cases he hs hcall
    exact .inl ⟨k₁, rfl, heq, hh⟩
  | none => exact .inr ⟨rfl, quiet_handled he hcall⟩

/-! ## §5. Frames. -/

theorem cur_ne {k : TaskManager} {t : Nat} (hcur : 0 ≤ k.currentTask) (hne : k.currentTask ≠ t) :
    t ≠ k.cur := by
  unfold cur
  omega

theorem cur_cast {k : TaskManager} (hcur : 0 ≤ k.currentTask) : (k.cur : Int) = k.currentTask :=
  Int.toNat_of_nonneg hcur

/-- A system call leaves the other tasks alone. -/
theorem Handled.frame {k k₁ : TaskManager} (h : Handled k k₁) {t : Nat} (ht : t < k.numTasks)
    (hne : k.currentTask ≠ t) : k₁.tasks t = k.tasks t := by
  cases h with
  | same m => rfl
  | exited m hcur => exact setTask_of_ne _ _ (cur_ne hcur hne)
  | blocked m c hcur _ _ _ => exact setTask_of_ne _ _ (cur_ne hcur hne)
  | readied m c hcur => exact setTask_of_ne _ _ (cur_ne hcur hne)
  | spared m tasks counter hsame => exact hsame t ht
  | forked m _ _ _ => exact setTask_of_ne _ _ (by omega)

theorem Handled.currentTask {k k₁ : TaskManager} (h : Handled k k₁) :
    k₁.currentTask = k.currentTask := by
  cases h <;> rfl

theorem Handled.numTasks_le {k k₁ : TaskManager} (h : Handled k k₁) :
    k.numTasks ≤ k₁.numTasks := by
  cases h with
  | forked m _ _ _ => exact Nat.le_succ _
  | _ => exact Nat.le_refl _

/-- A field of a task that the new record of the current task shares with the old one. -/
theorem setCurrent_field {α : Type} (f : Task → α) (k : TaskManager) {t : Task}
    (ht : f t = f k.current) (j : Nat) : f ((k.setCurrent t).tasks j) = f (k.tasks j) := by
  by_cases hj : j = k.cur
  · subst hj
    rw [setCurrent_self, ht]
    rfl
  · exact congrArg f (setTask_of_ne k t hj)

/-- A system call changes neither pids nor parents. -/
theorem Handled.pid_ppid {k k₁ : TaskManager} (h : Handled k k₁) {j : Nat} (hj : j < k.numTasks) :
    (k₁.tasks j).pid = (k.tasks j).pid ∧ (k₁.tasks j).ppid = (k.tasks j).ppid := by
  have hcur : ∀ t : Task, t.pid = k.current.pid → t.ppid = k.current.ppid →
      ((k.setCurrent t).tasks j).pid = (k.tasks j).pid
        ∧ ((k.setCurrent t).tasks j).ppid = (k.tasks j).ppid := fun t hpid hppid =>
    ⟨setCurrent_field Task.pid k hpid j, setCurrent_field Task.ppid k hppid j⟩
  have hlast : ∀ t : Task, ((k.setTask k.numTasks t).tasks j).pid = (k.tasks j).pid
      ∧ ((k.setTask k.numTasks t).tasks j).ppid = (k.tasks j).ppid := by
    intro t
    rw [setTask_of_ne k t (Nat.ne_of_lt hj)]
    exact ⟨rfl, rfl⟩
  cases h with
  | same m => exact ⟨rfl, rfl⟩
  | exited m _ => exact hcur _ rfl rfl
  | blocked m c _ _ _ _ => exact hcur _ rfl rfl
  | readied m c _ => exact hcur _ rfl rfl
  | spared m tasks counter hsame =>
    show (tasks j).pid = _ ∧ (tasks j).ppid = _
    rw [hsame j hj]
    exact ⟨rfl, rfl⟩
  | forked m _ _ _ => exact hlast _

theorem Handled.pid {k k₁ : TaskManager} (h : Handled k k₁) {j : Nat} (hj : j < k.numTasks) :
    (k₁.tasks j).pid = (k.tasks j).pid := (h.pid_ppid hj).1

theorem Handled.slots {k k₁ : TaskManager} (hk : Slots k) (h : Handled k k₁) : Slots k₁ where
  le := by
    cases h with
    | forked m hlt _ _ => exact hlt
    | _ => exact hk.le
  lo := by rw [h.currentTask]; exact hk.lo
  hi := by
    have h1 := hk.hi
    have h2 := h.numTasks_le
    rw [h.currentTask]
    omega

theorem Handled.shape {k k₁ : TaskManager} (hk : Shape k) (h : Handled k k₁) : Shape k₁ where
  toSlots := h.slots hk.toSlots
  pos := lt_of_lt_of_le hk.pos h.numTasks_le

/-- The bounds of a table that `Schedule` is called with do not depend on what the constructor has
    run over. -/
theorem call_numTasks {k k₁ : TaskManager} {ev : Event} {c : Nat} (he : Enabled k ev)
    (h : scheduleCall k ev = some (k₁, c)) :
    k.numTasks ≤ k₁.numTasks ∧ k₁.currentTask = k.currentTask := by
  obtain ⟨_, _, hh | ⟨_, m, rfl⟩⟩ := newFails_cases he h
  · exact ⟨hh.numTasks_le, hh.currentTask⟩
  · exact ⟨Nat.le_refl _, rfl⟩

theorem call_slots {k k₁ : TaskManager} {ev : Event} {c : Nat} (hk : Slots k) (he : Enabled k ev)
    (h : scheduleCall k ev = some (k₁, c)) : Slots k₁ := by
  obtain ⟨_, _, hh | ⟨_, m, rfl⟩⟩ := newFails_cases he h
  · exact hh.slots hk
  · exact ⟨hk.le, hk.lo, hk.hi⟩

theorem call_shape {k k₁ : TaskManager} {ev : Event} {c : Nat} (hk : Shape k) (he : Enabled k ev)
    (h : scheduleCall k ev = some (k₁, c)) : Shape k₁ where
  toSlots := call_slots hk.toSlots he h
  pos := lt_of_lt_of_le hk.pos (call_numTasks he h).1

/-! ## §6. `Schedule` keeps the shape and the other tasks. -/

theorem select_self (k : TaskManager) (c i w : Nat) :
    ((select k c i w).tasks i).taskState = .READY := by
  show (((k.saveContext c).setTask i _).tasks i).taskState = .READY
  rw [setTask_self]

theorem select_of_ne (k : TaskManager) (c w : Nat) {i j : Nat} (h : j ≠ i) :
    (select k c i w).tasks j = (k.saveContext c).tasks j := setTask_of_ne _ _ h

theorem select_pid (k : TaskManager) (c i w j : Nat) :
    ((select k c i w).tasks j).pid = (k.tasks j).pid := by
  by_cases h : j = i
  · subst h
    show (((k.saveContext c).setTask j _).tasks j).pid = _
    rw [setTask_self]
    exact saveContext_pid k c j
  · rw [select_of_ne k c w h, saveContext_pid]

@[simp] theorem select_numTasks (k : TaskManager) (c i w : Nat) :
    (select k c i w).numTasks = k.numTasks := saveContext_numTasks k c

theorem Slots.schedule {k : TaskManager} (h : Slots k) (c : Nat) : Slots (k.Schedule c).1 := by
  rcases schedule_cases h c with ⟨d, i, w, hfirst, heq⟩ | ⟨_, heq⟩
  · rw [heq]
    refine ⟨?_, by show (-1 : Int) ≤ (i : Int); omega, ?_⟩
    · rw [select_numTasks]
      exact h.le
    · rw [select_numTasks]
      exact Int.ofNat_lt.mpr hfirst.lt
  · rw [heq]
    exact h.saveContext c

theorem schedule_numTasks {k : TaskManager} (h : Slots k) (c : Nat) :
    (k.Schedule c).1.numTasks = k.numTasks := by
  rcases schedule_cases h c with ⟨d, i, w, _, heq⟩ | ⟨_, heq⟩
  · rw [heq, select_numTasks]
  · rw [heq]
    exact saveContext_numTasks k c

theorem Shape.schedule {k : TaskManager} (h : Shape k) (c : Nat) : Shape (k.Schedule c).1 where
  toSlots := h.toSlots.schedule c
  pos := by
    rw [schedule_numTasks h.toSlots]
    exact h.pos

/-- A runnable task that keeps its own fields stays runnable as long as FINISHED tasks stay so. -/
theorem Runnable.mono {k k' : TaskManager} {t : Nat} (hr : Runnable k t)
    (hn : k.numTasks ≤ k'.numTasks)
    (hpid : ∀ j < k.numTasks, (k'.tasks j).pid = (k.tasks j).pid)
    (hstate : (k'.tasks t).taskState = (k.tasks t).taskState)
    (hwait : (k'.tasks t).waitPid = (k.tasks t).waitPid)
    (hfin : ∀ j < k.numTasks, (k.tasks j).taskState = .FINISHED →
      (k'.tasks j).taskState = .FINISHED) : Runnable k' t := by
  obtain ⟨ht, hready | ⟨hw, j, hj, hfinds, hjf⟩⟩ := hr
  · exact ⟨by omega, .inl (hstate.trans hready)⟩
  · refine ⟨by omega, .inr ⟨hstate.trans hw, j, by omega, ?_, hfin j hj hjf⟩⟩
    rw [hwait]
    exact hfinds.mono hn hpid

theorem Runnable.not_finished {k : TaskManager} {t : Nat} (hr : Runnable k t) :
    (k.tasks t).taskState ≠ .FINISHED := by
  obtain ⟨_, h | ⟨h, _⟩⟩ := hr <;> rw [h] <;> decide

/-! ## §7. What stays of a record, and the record of a child. -/

/-- The fields of a task that only its creation writes. -/
def fixed (t : Task) : Nat × Nat × Nat × Nat := (t.stack, t.pid, t.ppid, t.gdt)

/-- A system call leaves these fields alone in every slot of the table. -/
theorem Handled.fixed_eq {k k₁ : TaskManager} (h : Handled k k₁) {j : Nat} (hj : j < k.numTasks) :
    fixed (k₁.tasks j) = fixed (k.tasks j) := by
  have hcur : ∀ t : Task, fixed t = fixed k.current →
      fixed ((k.setCurrent t).tasks j) = fixed (k.tasks j) := fun t ht =>
    setCurrent_field fixed k ht j
  have hlast : ∀ t : Task, fixed ((k.setTask k.numTasks t).tasks j) = fixed (k.tasks j) := fun t =>
    congrArg fixed (setTask_of_ne k t (Nat.ne_of_lt hj))
  cases h with
  | same m => rfl
  | exited m _ => exact hcur _ rfl
  | blocked m c _ _ _ _ => exact hcur _ rfl
  | readied m c _ => exact hcur _ rfl
  | spared m tasks counter hsame => exact congrArg fixed (hsame j hj)
  | forked m _ _ _ => exact hlast _

theorem saveContext_fixed (k : TaskManager) (c j : Nat) :
    fixed ((k.saveContext c).tasks j) = fixed (k.tasks j) := by
  obtain ⟨_, h⟩ := saveContext_task k c j
  rw [h]
  rfl

/-- `Schedule` leaves them alone as well. -/
theorem schedule_fixed {k : TaskManager} (h : Slots k) (c j : Nat) :
    fixed ((k.Schedule c).1.tasks j) = fixed (k.tasks j) := by
  rcases schedule_cases h c with ⟨d, i, w, _, heq⟩ | ⟨_, heq⟩
  · rw [heq, ← saveContext_fixed k c j]
    by_cases hji : j = i
    · subst hji
      show fixed (((k.saveContext c).setTask j _).tasks j) = _
      rw [setTask_self]
      rfl
    · rw [select_of_ne k c w hji]
  · rw [heq]
    exact saveContext_fixed k c j

/-- The record that `forkTask` makes of an object at `a`. -/
def childOf (k : TaskManager) (cpustate a : Nat) : Task where
  stack := a
  cpustate := add32 a (sub32 cpustate k.current.stack)
  taskState := .READY
  pid := k.processCounter
  ppid := k.current.pid
  gdt := k.current.gdt
  waitPid := minusOne

/-- The memory after `forkTask` has filled the object at `a`. -/
def childMem (k : TaskManager) (c a : Nat) : Mem :=
  let m := (Task.construct k.mem k.processCounter a k.current.gdt (getReg k.mem c .eip)).1
  let m := copyStack m k.current.stack a stackSize
  let m := setReg m (childOf k c a).cpustate .esp
    (add32 a (sub32 (getReg m c .esp) k.current.stack))
  setReg m (childOf k c a).cpustate .ecx 0

/-- The table after `forkTask` has appended the child. -/
def withChild (k : TaskManager) (c a : Nat) : TaskManager :=
  { k.setTask k.numTasks (childOf k c a) with
      numTasks := k.numTasks + 1, processCounter := add32 k.processCounter 1,
      mem := childMem k c a }

theorem forkTask_eq {k : TaskManager} {c : Nat} (h : CanFork k c) (a : Nat) :
    k.forkTask c (some a) = (withChild k c a, k.processCounter) := by
  obtain ⟨hlt, hgdt, heip⟩ := h
  unfold forkTask
  rw [if_neg (Nat.not_le.mpr hlt)]
  simp only
  rw [if_neg (not_or.mpr ⟨hgdt, heip⟩)]
  rfl

/-- A table that `forkTask` has grown has grown by the child. -/
theorem forkTask_record {k : TaskManager} {c : Nat} {alloc : Option Nat}
    (h : k.numTasks < (k.forkTask c alloc).1.numTasks) :
    CanFork k c ∧ ∃ a, alloc = some a ∧ (k.forkTask c alloc).1 = withChild k c a := by
  by_cases hcan : CanFork k c
  · cases alloc with
    | none =>
      rw [forkTask_none hcan] at h
      exact absurd h (lt_irrefl _)
    | some a => exact ⟨hcan, a, rfl, by rw [forkTask_eq hcan]⟩
  · rw [forkTask_early hcan] at h
    exact absurd h (lt_irrefl _)

/-- A table that has grown when `Schedule` is called has grown by a child of the caller of `fork`. -/
theorem scheduleCall_record {k k₁ : TaskManager} {ev : Event} {c : Nat}
    (h : scheduleCall k ev = some (k₁, c)) (hgrown : k.numTasks < k₁.numTasks) :
    (CallsFork ev ∧ CanFork { k with mem := ev.mem } ev.esp) ∧ ∃ a, ev.alloc = some a
      ∧ k₁.numTasks = k.numTasks + 1 ∧ k₁.tasks k.numTasks = childOf k ev.esp a := by
  have hint := interrupted k ev
  rw [h] at hint
  generalize DoHandleInterrupt k ev = answer at hint
  cases hint with
  | exit => exact absurd hgrown (lt_irrefl _)
  | waits _ _ hb =>
    obtain ⟨_, _, _, _, _, heq⟩ := waitpidTask_blocks hb
    rw [heq] at hgrown
    exact absurd hgrown (lt_irrefl _)
  | fork hsys heax =>
    obtain ⟨hcan, a, halloc, heq⟩ := forkTask_record (k := { k with mem := ev.mem }) hgrown
    refine ⟨⟨⟨hsys, heax⟩, hcan⟩, a, halloc, ?_, ?_⟩
    · unfold forked
      simp only [heq]
      rfl
    · unfold forked
      simp only [heq]
      exact setTask_self ..
  | timer => exact absurd hgrown (lt_irrefl _)

/-- The call that `fork` makes. -/
theorem scheduleCall_fork {k : TaskManager} {ev : Event} (h : CallsFork ev) :
    scheduleCall k ev = some (forked k ev, ev.esp)
      ∧ DoHandleInterrupt k ev = (forked k ev).Schedule ev.esp := by
  obtain ⟨hsys, heax⟩ := h
  unfold scheduleCall DoHandleInterrupt SyscallHandler.HandleInterrupt
  simp only
  rw [if_pos hsys, if_pos hsys, heax]
  exact ⟨rfl, rfl⟩

/-- A `fork` that makes a child leaves the other tasks. -/
theorem forked_child {k : TaskManager} {ev : Event} {a : Nat}
    (hcan : CanFork { k with mem := ev.mem } ev.esp) (halloc : ev.alloc = some a) :
    (forked k ev).numTasks = k.numTasks + 1
      ∧ (forked k ev).tasks k.numTasks = childOf { k with mem := ev.mem } ev.esp a
      ∧ (forked k ev).mem
        = setReg (childMem { k with mem := ev.mem } ev.esp a) ev.esp .ecx k.processCounter
      ∧ ∀ i < k.numTasks, (forked k ev).tasks i = k.tasks i := by
  unfold forked
  rw [halloc]
  simp only [forkTask_eq hcan]
  exact ⟨rfl, setTask_self .., rfl, fun i hi => setTask_of_ne _ _ (Nat.ne_of_lt hi)⟩

/-- A failed `new` takes a pid, and changes the records as the object at null does. -/
theorem forked_fails {k : TaskManager} {ev : Event} (h : NewFails k ev) :
    (forked k ev).numTasks = k.numTasks ∧ (forked k ev).currentTask = k.currentTask
      ∧ (forked k ev).processCounter = add32 k.processCounter 1
      ∧ ∀ i < k.numTasks, (forked k ev).tasks i = (k.tasks i).afterNull ev.mem k.processCounter
          k.current.gdt (getReg ev.mem ev.esp .eip) := by
  obtain ⟨_, hcan, hnone⟩ := h
  unfold forked
  rw [hnone]
  simp only [forkTask_none hcan]
  exact ⟨rfl, rfl, rfl, fun i hi => failedNew_task { k with mem := ev.mem } ev.esp hi⟩

/-- `Schedule` does not count. -/
theorem schedule_processCounter {k : TaskManager} (h : Slots k) (c : Nat) :
    (k.Schedule c).1.processCounter = k.processCounter := by
  rcases schedule_cases h c with ⟨d, i, w, _, heq⟩ | ⟨_, heq⟩
  · rw [heq]
    exact saveContext_processCounter k c
  · rw [heq, saveContext_processCounter]

end SystemOS.Kernel.ScheduleCall
