/-
  SystemOS.Kernel.SchedulerRuns — the scheduler over whole runs of the kernel.

  A run starts from the table in which `AddTask` has registered the init task and takes any
  interrupts; system calls come from the task that is running.

  Main results:
    * `kernelInv_reachable`     — the current task is READY, or nothing at all is runnable.
    * `schedule_resumes_ready`  — a call of `Schedule` that finds a runnable task resumes a READY
      one; one that finds none returns the interrupted frame.  Exited and blocked tasks stay off
      the processor as long as the calls find a runnable task.
    * `schedule_round_robin`    — the selection is the first runnable slot in cyclic order, and no
      runnable task is overtaken twice by the same task.
-/
import SystemOS.Lib.Transition
import SystemOS.Kernel.ScheduleCall

namespace SystemOS.Kernel.SchedulerRuns

open SystemOS.Lib.ByteMemory SystemOS.Lib.RoundRobin SystemOS.Lib.Transition
open SystemOS.Kernel.Multitasking SystemOS.Kernel.Multitasking.TaskManager
open SystemOS.Kernel.ScheduleCall

/-! ## §1. Runs. -/

/-- The table `kernelMain` hands to the interrupts: whatever the slots held, one `AddTask`. -/
def boot (tasks : Nat → Task) (m : Mem) (stack gdt entrypoint : Nat) : TaskManager :=
  let (m, processCounter, init_task) := Task.construct m 0 stack gdt entrypoint
  (AddTask { tasks := tasks, numTasks := 0, currentTask := -1, processCounter := processCounter,
             mem := m } init_task).1

/-- The kernel under interrupts. -/
def kernelSystem : System TaskManager Event where
  init k := ∃ tasks m stack gdt entrypoint, k = boot tasks m stack gdt entrypoint
  step k ev k' := Enabled k ev ∧ k' = (DoHandleInterrupt k ev).1

/-- The invariant of the runs. -/
structure KernelInv (k : TaskManager) : Prop extends Shape k where
  current_ready : 0 ≤ k.currentTask → (k.tasks k.cur).taskState = .READY ∨ ∀ i, ¬ Runnable k i

theorem boot_inv (tasks : Nat → Task) (m : Mem) (stack gdt entrypoint : Nat) :
    KernelInv (boot tasks m stack gdt entrypoint) where
  pos := Nat.zero_lt_one
  le := by show 1 ≤ 256; decide
  lo := Int.le_refl _
  hi := by show (-1 : Int) < (1 : Nat); decide
  current_ready := fun h => absurd h (by show ¬ (0 : Int) ≤ -1; decide)

/-- `Schedule` establishes the invariant from the shape alone. -/
theorem schedule_inv {k : TaskManager} (h : Shape k) (c : Nat) : KernelInv (k.Schedule c).1 where
  toShape := h.schedule c
  current_ready := fun _ => by
    rcases schedule_cases h.toSlots c with ⟨d, i, w, _, heq⟩ | ⟨hnone, heq⟩
    · left
      rw [heq]
      exact select_self k c i w
    · right
      rw [heq, saveContext_runnable]
      exact hnone

/-- One interrupt keeps the invariant, whatever a failed `new` has written over. -/
theorem interrupt_inv {k : TaskManager} {ev : Event} (hk : KernelInv k) (he : Enabled k ev) :
    KernelInv (DoHandleInterrupt k ev).1 := by
  cases hcall : scheduleCall k ev with
  | some r =>
    obtain ⟨k₁, c⟩ := r
    rw [(newFails_cases he hcall).2.1]
    exact schedule_inv (call_shape hk.toShape he hcall) c
  | none =>
    -- the current task stays as it is, or execve makes it READY
    refine ⟨(quiet_handled he hcall).shape hk.toShape, fun hcur => ?_⟩
    rcases quiet_cases he hcall with ⟨m, heq⟩ | ⟨_, m, c, heq⟩
    · rw [heq] at hcur ⊢
      exact hk.current_ready hcur
    · left
      rw [heq]
      show ((k.setCurrent _).tasks k.cur).taskState = .READY
      rw [setCurrent_self]

theorem kernelInv_reachable {k : TaskManager} (hk : kernelSystem.Reachable k) : KernelInv k := by
  refine hk.invariant ?_ ?_
  · intro k hboot
    obtain ⟨tasks, m, stack, gdt, entrypoint, rfl⟩ := hboot
    exact boot_inv ..
  · intro k ev k' hinv hstep
    obtain ⟨he, rfl⟩ := hstep
    exact interrupt_inv hinv he

/-- The interrupts of `evs` can come one after the other, and each meets `C`. -/
def Follows (C : TaskManager → Event → Prop) : TaskManager → List Event → Prop
  | _, [] => True
  | k, ev :: evs => C k ev ∧ Enabled k ev ∧ Follows C (DoHandleInterrupt k ev).1 evs

instance Follows.decidable (C : TaskManager → Event → Prop) [∀ k ev, Decidable (C k ev)] :
    ∀ k evs, Decidable (Follows C k evs)
  | _, [] => inferInstanceAs (Decidable True)
  | k, ev :: evs =>
    have := Follows.decidable C (DoHandleInterrupt k ev).1 evs
    inferInstanceAs (Decidable (C k ev ∧ Enabled k ev ∧ Follows C (DoHandleInterrupt k ev).1 evs))

theorem Follows.mono {C C' : TaskManager → Event → Prop} (h : ∀ k ev, C k ev → C' k ev) :
    ∀ {evs : List Event} {k : TaskManager}, Follows C k evs → Follows C' k evs
  | [], _, _ => trivial
  | _ :: _, _, ⟨hC, he, hrest⟩ => ⟨h _ _ hC, he, hrest.mono h⟩

/-- The table after the interrupts `evs`. -/
def after (k : TaskManager) (evs : List Event) : TaskManager :=
  evs.foldl (fun k ev => (DoHandleInterrupt k ev).1) k

/-- Interrupts that follow each other are a run, wherever it started. -/
theorem exec_after {S : System TaskManager Event} (hS : S.step = kernelSystem.step)
    {C : TaskManager → Event → Prop} : ∀ {evs : List Event} {k : TaskManager}, Follows C k evs →
      (S.restrict C).Exec k evs (after k evs)
  | [], k, _ => .nil k
  | ev :: evs, k, ⟨hC, he, hrest⟩ => by
    refine .cons ⟨hC, ?_⟩ (exec_after hS hrest)
    rw [hS]
    exact ⟨he, rfl⟩

theorem reachable_after {S : System TaskManager Event} (hS : S.step = kernelSystem.step)
    {C : TaskManager → Event → Prop} {evs : List Event} {k : TaskManager} (h0 : S.init k)
    (h : Follows C k evs) : S.Reachable (after k evs) :=
  ((exec_after hS h).reachable (.start h0)).of_restrict

/-- The table after `AddTask` of an init task at 3 MiB, into a slot record at `record` whose field
    holds a descriptor table. -/
def bootOver (record : Nat) : TaskManager :=
  boot (fun _ => ⟨record, 0, .READY, 0, 0, 0x1000, 0⟩) (fun _ => 0) 0x300000 0x1000 0x100000

theorem bootOver_init (record : Nat) : kernelSystem.init (bootOver record) := ⟨_, _, _, _, _, rfl⟩

/-- A timer tick, with the frame at `esp`. -/
def tick (esp : Nat) : Event := ⟨timerVector, esp, fun _ => 0, none⟩

/-- A system call `number` with argument `ebx`, from a frame at `esp` that goes on at address 1. -/
def syscall (esp : Nat) (number ebx : UInt8) (alloc : Option Nat) : Event where
  interrupt := syscallVector
  esp := esp
  mem a := if a = esp then number else if a = esp + 4 then ebx else if a = esp + 32 then 1 else 0
  alloc := alloc

/-- The init task is started and forks, and so does its child. -/
def births : List Event :=
  [tick 0x9000, syscall 0x200F00 2 0 (some 0x400000), syscall 0x400F00 2 0 (some 0x500000)]

/-- The init task, its child and its grandchild, which is running. -/
def family : TaskManager := after (bootOver 0x200000) births

theorem births_follow : Follows SparesTasks (bootOver 0x200000) births := by decide +kernel

theorem family_reachable : kernelSystem.Reachable family :=
  reachable_after rfl (bootOver_init 0x200000) births_follow

/-! ## §2. Who is resumed. -/

/-- The context that `Schedule` returns is the saved context of a READY task. -/
def ResumesReady (k : TaskManager) (c : Nat) : Prop :=
  ∃ i < k.numTasks, ((k.Schedule c).1.tasks i).taskState = .READY
    ∧ (k.Schedule c).2 = ((k.Schedule c).1.tasks i).cpustate

/-- If the interrupt calls `Schedule`, some task is runnable at the call. -/
def SomeRunnable (k : TaskManager) (ev : Event) : Prop :=
  ∀ k₁ c, scheduleCall k ev = some (k₁, c) → ∃ i, Runnable k₁ i

instance (k : TaskManager) (ev : Event) : Decidable (SomeRunnable k ev) :=
  match h : scheduleCall k ev with
  | none => .isTrue fun _ _ hcall => by
      rw [h] at hcall
      cases hcall
  | some (k₁, c) => decidable_of_iff (∃ i < k₁.numTasks, Runnable k₁ i) <| by
      constructor
      · rintro ⟨i, _, hi⟩ _ _ hcall
        rw [h] at hcall
        cases hcall
        exact ⟨i, hi⟩
      · intro hsome
        obtain ⟨i, hi⟩ := hsome k₁ c h
        exact ⟨i, hi.1, hi⟩

/-- The interrupt finds a runnable task if it calls `Schedule`, and leaves the records of the table
    alone if it is a `fork` whose `new` fails. -/
def Orderly (k : TaskManager) (ev : Event) : Prop :=
  SparesTasks k ev ∧ SomeRunnable k ev

instance (k : TaskManager) (ev : Event) : Decidable (Orderly k ev) :=
  inferInstanceAs (Decidable (_ ∧ _))

/-- The interrupt is the system call `exit`. -/
def CallsExit (ev : Event) : Prop :=
  ev.interrupt = syscallVector ∧ getReg ev.mem ev.esp .eax = 1

/-- The interrupt is a system call `waitpid` for the task in slot `j`, and it blocks the caller. -/
def BlocksOn (k : TaskManager) (ev : Event) (j : Nat) : Prop :=
  ev.interrupt = syscallVector ∧ getReg ev.mem ev.esp .eax = 7
    ∧ Finds k (getReg ev.mem ev.esp .ebx) j
    ∧ (waitpidTask { k with mem := ev.mem } ev.esp).2 = true

/-- A task that is FINISHED and not current. -/
def Retired (k : TaskManager) (t : Nat) : Prop :=
  t < k.numTasks ∧ (k.tasks t).taskState = .FINISHED ∧ k.currentTask ≠ t

/-- A selection leaves a FINISHED task FINISHED and off the processor. -/
theorem retired_schedule {k : TaskManager} (h : Shape k) (c : Nat) {t : Nat} (ht : t < k.numTasks)
    (hfin : (k.tasks t).taskState = .FINISHED) (hsome : ∃ i, Runnable k i) :
    Retired (k.Schedule c).1 t := by
  rcases schedule_cases h.toSlots c with ⟨d, i, w, hfirst, heq⟩ | ⟨hnone, _⟩
  · -- a runnable slot is not FINISHED
    have hit : t ≠ i := fun hti => hfirst.holds.not_finished (hti ▸ hfin)
    rw [heq]
    refine ⟨by simpa using ht, ?_, ?_⟩
    · rw [select_of_ne k c w hit, saveContext_taskState, hfin]
    · show (i : Int) ≠ t
      omega
  · obtain ⟨i, hi⟩ := hsome
    exact absurd hi (hnone i)

theorem retired_step {k k' : TaskManager} {ev : Event} {t : Nat} (hk : Shape k)
    (hst : (kernelSystem.restrict Orderly).step k ev k') (ht : Retired k t) :
    Retired k' t := by
  obtain ⟨⟨hspares, hsome⟩, he, rfl⟩ := hst
  obtain ⟨hlt, hfin, hne⟩ := ht
  rcases interrupt_cases he hspares with ⟨k₁, hcall, heq, hh⟩ | ⟨_, hh⟩
  · rw [heq]
    refine retired_schedule (hh.shape hk) ev.esp (lt_of_lt_of_le hlt hh.numTasks_le) ?_
      (hsome k₁ ev.esp hcall)
    rw [hh.frame hlt hne, hfin]
  · refine ⟨lt_of_lt_of_le hlt hh.numTasks_le, ?_, ?_⟩
    · rw [hh.frame hlt hne, hfin]
    · rw [hh.currentTask]
      exact hne

/-- One interrupt keeps the shape. -/
theorem interrupt_shape {k : TaskManager} {ev : Event} (hk : Shape k) (he : Enabled k ev) :
    Shape (DoHandleInterrupt k ev).1 := by
  cases hcall : scheduleCall k ev with
  | some r =>
    obtain ⟨k₁, c⟩ := r
    rw [(newFails_cases he hcall).2.1]
    exact (call_shape hk he hcall).schedule c
  | none => exact (quiet_handled he hcall).shape hk

/-- No interrupt removes a task. -/
theorem interrupt_numTasks_le {k : TaskManager} {ev : Event} (hk : Shape k) (he : Enabled k ev) :
    k.numTasks ≤ (DoHandleInterrupt k ev).1.numTasks := by
  cases hcall : scheduleCall k ev with
  | some r =>
    obtain ⟨k₁, c⟩ := r
    rw [(newFails_cases he hcall).2.1, schedule_numTasks (call_shape hk he hcall).toSlots]
    exact (call_numTasks he hcall).1
  | none => exact (quiet_handled he hcall).numTasks_le

/-- The steps of the restricted system keep the shape. -/
theorem shape_step {k k' : TaskManager} {ev : Event} (hk : Shape k)
    (hst : (kernelSystem.restrict Orderly).step k ev k') : Shape k' := by
  obtain ⟨_, he, rfl⟩ := hst
  exact interrupt_shape hk he

theorem retired_run {k k' : TaskManager} {evs : List Event} {t : Nat} (hk : Shape k)
    (hrun : (kernelSystem.restrict Orderly).Exec k evs k') (ht : Retired k t) :
    Retired k' t :=
  (hrun.invariant (fun _ _ _ h hst => ⟨shape_step h.1 hst, retired_step h.1 hst h.2⟩)
    (I := fun k => Shape k ∧ Retired k t) ⟨hk, ht⟩).2

/-- Task `t` waits for the task in slot `j`, off the processor, or that task has FINISHED. -/
def Held (k : TaskManager) (t j : Nat) : Prop :=
  (t < k.numTasks ∧ k.currentTask ≠ t ∧ (k.tasks t).taskState = .WAITING
      ∧ Finds k (k.tasks t).waitPid j ∧ (k.tasks j).taskState ≠ .FINISHED)
    ∨ Retired k j

/-- A task waiting for slot `j` is runnable only once `j` is FINISHED. -/
theorem not_runnable_of_waiting {k : TaskManager} {t j : Nat}
    (hw : (k.tasks t).taskState = .WAITING) (hp : Finds k (k.tasks t).waitPid j)
    (hj : (k.tasks j).taskState ≠ .FINISHED) : ¬ Runnable k t := by
  intro hrun
  obtain ⟨_, hr | ⟨_, l, _, hl, hlf⟩⟩ := hrun
  · rw [hw] at hr
    cases hr
  · exact hj (hp.unique hl ▸ hlf)

/-- A selection made while `t` waits for `j` keeps `t` off the processor. -/
theorem held_schedule {k : TaskManager} (h : Shape k) (c : Nat) {t j : Nat} (ht : t < k.numTasks)
    (hw : (k.tasks t).taskState = .WAITING) (hp : Finds k (k.tasks t).waitPid j)
    (hsome : ∃ i, Runnable k i) : Held (k.Schedule c).1 t j := by
  by_cases hfin : (k.tasks j).taskState = .FINISHED
  · exact .inr (retired_schedule h c hp.1 hfin hsome)
  left
  rcases schedule_cases h.toSlots c with ⟨d, i, w, hfirst, heq⟩ | ⟨hnone, _⟩
  · have hti : t ≠ i := fun hti => not_runnable_of_waiting hw hp hfin (hti ▸ hfirst.holds)
    rw [heq]
    refine ⟨by simpa using ht, ?_, ?_, ?_, ?_⟩
    · show (i : Int) ≠ t
      omega
    · rw [select_of_ne k c w hti, saveContext_taskState, hw]
    · rw [select_of_ne k c w hti, saveContext_waitPid]
      exact hp.mono (select_numTasks ..).ge fun l _ => select_pid k c i w l
    · by_cases hji : j = i
      · subst hji
        rw [select_self]
        decide
      · rw [select_of_ne k c w hji, saveContext_taskState]
        exact hfin
  · obtain ⟨i, hi⟩ := hsome
    exact absurd hi (hnone i)

theorem held_step {k k' : TaskManager} {ev : Event} {t j : Nat} (hk : Shape k)
    (hst : (kernelSystem.restrict Orderly).step k ev k') (hheld : Held k t j) :
    Held k' t j := by
  rcases hheld with ⟨ht, hne, hw, hp, hfin⟩ | hret
  · obtain ⟨⟨hspares, hsome⟩, he, rfl⟩ := hst
    rcases interrupt_cases he hspares with ⟨k₁, hcall, heq, hh⟩ | ⟨hcall, hh⟩
    all_goals
      have hsame := hh.frame ht hne
      have hp₁ := hp.mono hh.numTasks_le fun i hi => hh.pid hi
      rw [← hsame] at hw hp₁
    · rw [heq]
      exact held_schedule (hh.shape hk) ev.esp (lt_of_lt_of_le ht hh.numTasks_le) hw hp₁
        (hsome k₁ ev.esp hcall)
    · -- only `execve` can touch the awaited task here, and it makes it READY
      left
      refine ⟨lt_of_lt_of_le ht hh.numTasks_le, ?_, hw, hp₁, ?_⟩
      · rw [hh.currentTask]
        exact hne
      · rcases quiet_cases he hcall with ⟨m, heq⟩ | ⟨_, m, c, heq⟩
        · rw [heq]
          exact hfin
        · rw [heq]
          show ((k.setCurrent _).tasks j).taskState ≠ .FINISHED
          unfold setCurrent
          by_cases hjc : j = k.cur
          · rw [hjc, setTask_self]
            exact nofun
          · rw [setTask_of_ne _ _ hjc]
            exact hfin
  · exact .inr (retired_step hk hst hret)

theorem held_run {k k' : TaskManager} {evs : List Event} {t j : Nat} (hk : Shape k)
    (hrun : (kernelSystem.restrict Orderly).Exec k evs k') (hheld : Held k t j) :
    Held k' t j :=
  (hrun.invariant (fun _ _ _ h hst => ⟨shape_step h.1 hst, held_step h.1 hst h.2⟩)
    (I := fun k => Shape k ∧ Held k t j) ⟨hk, hheld⟩).2

/-- The call that `exit` makes. -/
theorem exit_call {k : TaskManager} {ev : Event} (h : CallsExit ev) :
    scheduleCall k ev = some (exitTask { k with mem := ev.mem }, ev.esp) := by
  unfold scheduleCall
  simp only
  rw [if_pos h.1, h.2]
  rfl

/-- The call that a blocking `waitpid` makes. -/
theorem waitpid_call {k : TaskManager} {ev : Event} {j : Nat} (h : BlocksOn k ev j) :
    scheduleCall k ev = some ((waitpidTask { k with mem := ev.mem } ev.esp).1, ev.esp) := by
  obtain ⟨hsys, heax, _, hb⟩ := h
  unfold scheduleCall
  simp only
  rw [if_pos hsys, heax]
  simp only
  rw [if_pos hb]

/-- The answer of one call of `Schedule`. -/
theorem schedule_answer {k : TaskManager} (h : Shape k) (c : Nat) :
    ((∃ i, Runnable k i) → ResumesReady k c ∧ ∃ i, Runnable k i
        ∧ (k.Schedule c).1.currentTask = i ∧ ((k.Schedule c).1.tasks i).taskState = .READY
        ∧ (k.Schedule c).2 = ((k.Schedule c).1.tasks i).cpustate)
      ∧ ((∀ i, ¬ Runnable k i) → k.Schedule c = (k.saveContext c, c)) := by
  rcases schedule_cases h.toSlots c with ⟨d, i, w, hfirst, heq⟩ | ⟨hnone, heq⟩
  · have hsaved : ((select k c i w).tasks i).cpustate = ((k.saveContext c).tasks i).cpustate := by
      show (((k.saveContext c).setTask i _).tasks i).cpustate = _
      rw [setTask_self]
    refine ⟨fun _ => ?_, fun hnone => absurd hfirst.holds (hnone i)⟩
    rw [ResumesReady, heq]
    exact ⟨⟨i, hfirst.lt, select_self k c i w, hsaved.symm⟩,
      i, hfirst.holds, rfl, select_self k c i w, hsaved.symm⟩
  · exact ⟨fun ⟨i, hi⟩ => absurd hi (hnone i), fun _ => heq⟩

/-- The call that follows `exit` takes the caller off the processor for good. -/
theorem retired_exit {k : TaskManager} {ev : Event} (hk : KernelInv k) (hexit : CallsExit ev)
    (he : Enabled k ev) (hord : Orderly k ev) : Retired (DoHandleInterrupt k ev).1 k.cur := by
  obtain ⟨hspares, hsome⟩ := hord
  have hcall := exit_call (k := k) hexit
  obtain ⟨_, heq, hh⟩ := scheduleCall_cases he hspares hcall
  rw [heq]
  refine retired_schedule (hh.shape hk.toShape) _ (lt_of_lt_of_le hk.cur_lt hh.numTasks_le)
    ?_ (hsome _ _ hcall)
  show ((k.setCurrent _).tasks k.cur).taskState = .FINISHED
  rw [setCurrent_self]

/-- The call that follows a blocking `waitpid` leaves the caller waiting for slot `j`. -/
theorem held_waitpid {k : TaskManager} {ev : Event} {j : Nat} (hk : KernelInv k)
    (hblock : BlocksOn k ev j) (he : Enabled k ev) (hord : Orderly k ev) :
    Held (DoHandleInterrupt k ev).1 k.cur j := by
  obtain ⟨hspares, hsome⟩ := hord
  have hcall := waitpid_call hblock
  obtain ⟨_, heq, hh⟩ := scheduleCall_cases he hspares hcall
  obtain ⟨_, _, hfinds, hb⟩ := hblock
  obtain ⟨_, _, _, _, _, hwait⟩ := waitpidTask_blocks hb
  -- the record of the caller, as `waitpid` leaves it
  have hrecord : ((waitpidTask { k with mem := ev.mem } ev.esp).1.tasks k.cur)
      = { k.current with taskState := .WAITING, waitPid := getReg ev.mem ev.esp .ebx,
                         cpustate := ev.esp } := by
    rw [hwait]
    exact setCurrent_self ..
  rw [heq]
  refine held_schedule (hh.shape hk.toShape) _ (lt_of_lt_of_le hk.cur_lt hh.numTasks_le) ?_ ?_
    (hsome _ _ hcall)
  · rw [hrecord]
  · rw [hrecord]
    exact hfinds.mono hh.numTasks_le fun i hi => hh.pid hi

/-- **Who is resumed.**  A call of `Schedule` that finds a runnable task makes a runnable slot
    current and READY and returns its saved context; one that finds none returns the interrupted
    frame and leaves the selection and every state alone.  In an orderly run, a task that called
    `exit` is never current again, and a task blocked by `waitpid` is not current before the awaited
    task is FINISHED. -/
theorem schedule_resumes_ready {k : TaskManager} (hk : kernelSystem.Reachable k) :
    (∀ ev k₁ c, Enabled k ev → scheduleCall k ev = some (k₁, c) →
        ((∃ i, Runnable k₁ i) → ResumesReady k₁ c ∧ ∃ i, Runnable k₁ i
            ∧ (k₁.Schedule c).1.currentTask = i ∧ ((k₁.Schedule c).1.tasks i).taskState = .READY
            ∧ (k₁.Schedule c).2 = ((k₁.Schedule c).1.tasks i).cpustate)
          ∧ ((∀ i, ¬ Runnable k₁ i) → k₁.Schedule c = (k₁.saveContext c, c)))
      ∧ (∀ ev evs k', CallsExit ev → (kernelSystem.restrict Orderly).Exec k (ev :: evs) k' →
          (k'.tasks k.cur).taskState = .FINISHED ∧ k'.currentTask ≠ k.currentTask)
      ∧ ∀ ev evs k' j, BlocksOn k ev j →
          (kernelSystem.restrict Orderly).Exec k (ev :: evs) k' →
          (k'.tasks j).taskState ≠ .FINISHED → k'.currentTask ≠ k.currentTask := by
  have hinv := kernelInv_reachable hk
  refine ⟨fun ev k₁ c he hcall => ?_, fun ev evs k' hexit hrun => ?_,
    fun ev evs k' j hblock hrun hfin => ?_⟩
  · exact schedule_answer (call_shape hinv.toShape he hcall) c
  · cases hrun with
    | cons hst hrest =>
    obtain ⟨hord, he, rfl⟩ := hst
    have hend := retired_run (interrupt_inv hinv he).toShape hrest
      (retired_exit hinv hexit he hord)
    exact ⟨hend.2.1, by rw [← cur_cast (he hexit.1)]; exact hend.2.2⟩
  · cases hrun with
    | cons hst hrest =>
    obtain ⟨hord, he, rfl⟩ := hst
    rcases held_run (interrupt_inv hinv he).toShape hrest (held_waitpid hinv hblock he hord) with
      ⟨_, hne, _⟩ | hret
    · rw [← cur_cast (he hblock.1)]
      exact hne
    · exact absurd hret.2.1 hfin

/-- The grandchild exits and three ticks go by; or it waits for the child, and two ticks go by. -/
def exits : List Event :=
  [syscall 0x500F00 1 0 none, tick 0x200F00, tick 0x400F00, tick 0x200F00]

def waits : List Event := [syscall 0x500F00 7 1 none, tick 0x200F00, tick 0x400F00]

theorem schedule_resumes_ready_family :
    ResumesReady { family with mem := (tick 0x500F00).mem } 0x500F00
      ∧ (((after family exits).tasks 2).taskState = .FINISHED ∧ (after family exits).currentTask ≠ 2)
      ∧ (after family waits).currentTask ≠ 2 := by
  refine ⟨?_, ?_, ?_⟩
  · have hsome : ∃ i, Runnable { family with mem := (tick 0x500F00).mem } i :=
      ⟨0, by decide +kernel⟩
    exact (((schedule_resumes_ready family_reachable).1 (tick 0x500F00) _ _ (by decide +kernel)
      rfl).1 hsome).1
  · exact (schedule_resumes_ready family_reachable).2.1 _ _ _ ⟨rfl, by decide⟩
      (exec_after rfl (by decide +kernel : Follows Orderly family exits))
  · refine (schedule_resumes_ready family_reachable).2.2 _ _ _ 1 ⟨rfl, by decide, ?_, ?_⟩
      (exec_after rfl (by decide +kernel : Follows Orderly family waits)) ?_ <;> decide +kernel

/-- When the only task exits, the scan finds nothing and the task is resumed. -/
theorem exit_of_sole_task {k : TaskManager} {ev : Event} (hk : Shape k) (hn : k.numTasks = 1)
    (hcur : k.currentTask = 0) (h : CallsExit ev) :
    ¬ ResumesReady (exitTask { k with mem := ev.mem }) ev.esp := by
  have he : Enabled k ev := fun _ => hcur.ge
  have hshape := call_shape hk he (exit_call h)
  -- slot 0 is the whole table, and `exit` has just finished it
  have hfin : ∀ i < k.numTasks,
      ((exitTask { k with mem := ev.mem }).tasks i).taskState = .FINISHED := by
    intro i hi
    have hi0 : i = k.cur := by
      unfold cur
      omega
    subst hi0
    show ((k.setCurrent _).tasks k.cur).taskState = .FINISHED
    rw [setCurrent_self]
  intro hrun
  obtain ⟨i, hi, hready, _⟩ := hrun
  rcases schedule_cases hshape.toSlots ev.esp with ⟨d, j, w, hfirst, _⟩ | ⟨_, heq⟩
  · exact hfirst.holds.not_finished (hfin j hfirst.lt)
  · rw [heq, saveContext_taskState, hfin i hi] at hready
    cases hready

/-- The init task runs, then exits while it is the only task: it is resumed all the same. -/
theorem exited_init_resumed : ¬ ∀ k ev k₁ c, kernelSystem.Reachable k → Enabled k ev →
    scheduleCall k ev = some (k₁, c) → 0 ≤ k₁.currentTask → ResumesReady k₁ c := by
  intro hclaim
  have hreach : kernelSystem.Reachable (after (bootOver 0x200000) [tick 0x9000]) :=
    reachable_after rfl (bootOver_init 0x200000)
      (by decide +kernel : Follows SparesTasks (bootOver 0x200000) [tick 0x9000])
  have hexit : CallsExit (syscall 0x200F00 1 0 none) := ⟨rfl, by decide⟩
  have hcur : (after (bootOver 0x200000) [tick 0x9000]).currentTask = 0 := by decide +kernel
  exact exit_of_sole_task (kernelInv_reachable hreach).toShape (by decide +kernel) hcur hexit
    (hclaim _ _ _ _ hreach (fun _ => hcur.ge) (exit_call hexit) hcur.ge)

/-! ## §3. Fairness. -/

/-- `Schedule`, called with a runnable task in the table, selects the first runnable slot in cyclic
    order after the current one, returns its saved context and touches no other task's state. -/
def SelectsFirst (k : TaskManager) (c : Nat) : Prop :=
  (∃ i, Runnable k i) →
    ∃ d i, FirstAt (Runnable k) k.numTasks (startAfter k.numTasks k.currentTask) d i
      ∧ (k.Schedule c).2 = ((k.saveContext c).tasks i).cpustate
      ∧ (k.Schedule c).1.currentTask = i ∧ ((k.Schedule c).1.tasks i).taskState = .READY
      ∧ ∀ j ≠ i, ((k.Schedule c).1.tasks j).taskState = (k.tasks j).taskState
          ∧ ((k.Schedule c).1.tasks j).waitPid = (k.tasks j).waitPid

theorem selectsFirst {k : TaskManager} (h : Shape k) (c : Nat) : SelectsFirst k c := by
  intro hrun
  obtain ⟨i, hi⟩ := hrun
  rcases schedule_cases h.toSlots c with ⟨d, i, w, hfirst, heq⟩ | ⟨hnone, _⟩
  · rw [heq]
    refine ⟨d, i, hfirst, rfl, rfl, select_self k c i w, fun j hj => ?_⟩
    rw [select_of_ne k c w hj, saveContext_taskState, saveContext_waitPid]
    exact ⟨rfl, rfl⟩
  · exact absurd hi (hnone i)

/-- The slot that an interrupt schedules, if it does. -/
def scheduled (k : TaskManager) (ev : Event) : Option Nat :=
  match scheduleCall k ev with
  | some (k₁, c) => if ∃ i < k₁.numTasks, Runnable k₁ i then some (k₁.Schedule c).1.cur else none
  | none => none

/-- The slots that a run schedules, in order. -/
def picks : TaskManager → List Event → List Nat
  | _, [] => []
  | k, ev :: evs => (scheduled k ev).toList ++ picks (DoHandleInterrupt k ev).1 evs

/-- While a runnable task waits for its turn, the current task is READY (if one has started). -/
theorem current_not_finished {k : TaskManager} (hk : KernelInv k) {t : Nat} (ht : Runnable k t)
    {j : Nat} (hj : (k.tasks j).taskState = .FINISHED) : k.currentTask ≠ j := by
  intro hcur
  have h0 : 0 ≤ k.currentTask := by omega
  rcases hk.current_ready h0 with hready | hnone
  · have : k.cur = j := by
      unfold cur
      omega
    rw [this, hj] at hready
    cases hready
  · exact hnone t ht

/-- A system call of another task leaves a runnable task runnable. -/
theorem runnable_handled {k k₁ : TaskManager} (hk : KernelInv k) (hh : Handled k k₁) {t : Nat}
    (ht : Runnable k t) (hne : k.currentTask ≠ t) : Runnable k₁ t := by
  have hsame := hh.frame ht.1 hne
  refine ht.mono hh.numTasks_le (fun j hj => hh.pid hj) (by rw [hsame]) (by rw [hsame]) ?_
  intro j hj hfin
  rw [hh.frame hj (current_not_finished hk ht hfin), hfin]

/-- **One interrupt, seen from a runnable task that is not current**: it is scheduled, or stays
    runnable while the selection moves on round the table, or nothing is scheduled. -/
theorem waiting_turn_step {k : TaskManager} {ev : Event} (hk : KernelInv k) (he : Enabled k ev)
    (hs : SparesTasks k ev) {t : Nat} (ht : Runnable k t) (hne : k.currentTask ≠ t) :
    scheduled k ev = some t
      ∨ Runnable (DoHandleInterrupt k ev).1 t
        ∧ (scheduled k ev = none ∧ (DoHandleInterrupt k ev).1.currentTask = k.currentTask
          ∨ ∃ i, scheduled k ev = some i ∧ i ≠ t
            ∧ (DoHandleInterrupt k ev).1.currentTask = i
            ∧ rank t k.currentTask < rank t i) := by
  unfold scheduled
  rcases interrupt_cases he hs with ⟨k₁, hcall, heq, hh⟩ | ⟨hcall, hh⟩
  · have hshape := hh.shape hk.toShape
    have ht₁ := runnable_handled hk hh ht hne
    rw [hcall]
    rcases schedule_cases hshape.toSlots ev.esp with ⟨d, i, w, hfirst, hsched⟩ | ⟨hnone, _⟩
    · have hcur : (k₁.Schedule ev.esp).1.cur = i := by
        rw [hsched]
        rfl
      simp only
      rw [if_pos ⟨t, ht₁.1, ht₁⟩, hcur]
      by_cases hit : i = t
      · exact .inl (by rw [hit])
      -- another slot was selected: `t` keeps its state, and the selection is nearer to it
      right
      rw [heq, hsched]
      refine ⟨?_, .inr ⟨i, rfl, hit, rfl, ?_⟩⟩
      · have hti : t ≠ i := fun h => hit h.symm
        refine ht₁.mono (select_numTasks ..).ge (fun j _ => select_pid k₁ ev.esp i w j) ?_ ?_ ?_
        · rw [select_of_ne k₁ ev.esp w hti, saveContext_taskState]
        · rw [select_of_ne k₁ ev.esp w hti, saveContext_waitPid]
        · intro j _ hfin
          -- the awaited task is FINISHED, so it is not the one that was made READY
          have hji : j ≠ i := fun h => hfirst.holds.not_finished (h ▸ hfin)
          rw [select_of_ne k₁ ev.esp w hji, saveContext_taskState, hfin]
      · have := rank_lt hshape.lo hshape.hi ht₁.1 ht₁ (by rw [hh.currentTask]; exact hne) hfirst hit
        rwa [hh.currentTask] at this
    · exact absurd ht₁ (hnone t)
  · rw [hcall]
    exact .inr ⟨runnable_handled hk hh ht hne, .inl ⟨rfl, hh.currentTask⟩⟩

/-- Along a run that does not schedule `t`, the ranks of the selections increase. -/
theorem ranks_increase {t : Nat} : ∀ {evs : List Event} {k k' : TaskManager}, KernelInv k →
    (kernelSystem.restrict SparesTasks).Exec k evs k' → Runnable k t → k.currentTask ≠ t → t ∉ picks k evs →
      (rank t k.currentTask :: (picks k evs).map fun i : Nat => rank t i).IsChain (· < ·)
  | [], _, _, _, _, _, _, _ => .singleton _
  | ev :: evs, k, k', hk, hrun, ht, hne, hnot => by
      cases hrun with
      | cons hst hrest =>
      obtain ⟨hs, he, rfl⟩ := hst
      simp only [picks, List.mem_append, not_or] at hnot
      have hinv := interrupt_inv hk he
      rcases waiting_turn_step hk he hs ht hne with
        hpick | ⟨ht', ⟨hpick, hcur⟩ | ⟨i, hpick, hit, hcur, hlt⟩⟩
      · rw [hpick] at hnot
        exact absurd (List.mem_singleton_self t) hnot.1
      · -- nothing is scheduled: the chain of the rest starts at the same rank
        have ih := ranks_increase hinv hrest ht' (by rw [hcur]; exact hne) hnot.2
        simp only [picks, hpick, Option.toList_none, List.nil_append]
        rwa [hcur] at ih
      · have ih := ranks_increase hinv hrest ht' (by rw [hcur]; omega) hnot.2
        simp only [picks, hpick, Option.toList_some, List.singleton_append, List.map_cons]
        rw [hcur] at ih
        exact List.isChain_cons_cons.mpr ⟨hlt, ih⟩

/-- **Round robin.**  In a reachable table, and at every call of `Schedule` an interrupt makes from
    it, the selection is the first runnable slot in cyclic order; and in any run whose failed `new`s
    spare the records, a runnable task that is not current is scheduled before any task is scheduled
    twice. -/
theorem schedule_round_robin {k : TaskManager} (hk : kernelSystem.Reachable k) :
    (∀ c, SelectsFirst k c)
      ∧ (∀ ev k₁ c, Enabled k ev → scheduleCall k ev = some (k₁, c) → SelectsFirst k₁ c)
      ∧ ∀ evs k' t, (kernelSystem.restrict SparesTasks).Exec k evs k' → Runnable k t →
          k.currentTask ≠ t → t ∉ picks k evs → (picks k evs).Nodup := by
  have hinv := kernelInv_reachable hk
  refine ⟨fun c => selectsFirst hinv.toShape c, fun ev k₁ c he hcall => ?_,
    fun evs k' t hrun ht hne hnot => nodup_of_ranks (ranks_increase hinv hrun ht hne hnot)⟩
  exact selectsFirst (call_shape hinv.toShape he hcall) c

/-- The grandchild forks, and a tick goes by. -/
def forks : List Event := [syscall 0x500F00 2 0 (some 0x600000), tick 0x600F00]

/-- The great-grandchild and the init task come before the child, which is runnable all the time. -/
theorem schedule_round_robin_family :
    (∀ c, SelectsFirst family c)
      ∧ SelectsFirst { family with mem := (tick 0x500F00).mem } 0x500F00
      ∧ picks family forks = [3, 0] ∧ (picks family forks).Nodup := by
  have hpicks : picks family forks = [3, 0] := by decide +kernel
  refine ⟨(schedule_round_robin family_reachable).1, ?_, hpicks, ?_⟩
  · exact (schedule_round_robin family_reachable).2.1 (tick 0x500F00) _ _ (by decide +kernel) rfl
  · have hrun : Follows SparesTasks family forks := by decide +kernel
    refine (schedule_round_robin family_reachable).2.2 _ _ 1 (exec_after rfl hrun) ?_ ?_ ?_
    · decide +kernel
    · decide +kernel
    · rw [hpicks]
      decide

/-- Slot 0 points nowhere.  A fork of slot 1 fails and gives the init task the pid 2; slot 2 waits
    for it, and it exits. -/
def overwrites : List Event :=
  [tick 0x9000, syscall 0xF00 2 0 (some 0x400000), syscall 0x400F00 2 0 none,
    syscall 0xF00 2 0 (some 0x500000), tick 0x400F00, syscall 0x500F00 7 2 none,
    syscall 0xF00 1 0 none]

def overwritten : TaskManager := after (bootOver 0) overwrites

theorem overwritten_reachable : kernelSystem.Reachable overwritten :=
  reachable_after rfl (bootOver_init 0)
    (by decide +kernel : Follows (fun _ _ => True) (bootOver 0) overwrites)

/-- The next fork of slot 1 fails as well: the init task is READY again under another pid, slot 2
    waits for a pid that no task has, and the other two take turns. -/
theorem passed_over : ¬ ∀ k evs k' t, kernelSystem.Reachable k → kernelSystem.Exec k evs k' →
    Runnable k t → k.currentTask ≠ t → t ∉ picks k evs → (picks k evs).Nodup := by
  intro hclaim
  have hrun : Follows (fun _ _ => True) overwritten
      [syscall 0x400F00 2 0 none, tick 0xF00, tick 0x400F00] := by decide +kernel
  have hpicks : picks overwritten [syscall 0x400F00 2 0 none, tick 0xF00, tick 0x400F00]
      = [0, 1, 0] := by decide +kernel
  have hnodup := hclaim overwritten _ _ 2 overwritten_reachable (exec_after rfl hrun).of_restrict
    (by decide +kernel) (by decide +kernel) (by rw [hpicks]; decide)
  rw [hpicks] at hnodup
  exact absurd hnodup (by decide)

end SystemOS.Kernel.SchedulerRuns
