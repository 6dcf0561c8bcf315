/-
  SystemOS.Kernel.ForkCall — what the caller of `fork` is told.

  `forkTask` answers the pid of the child it has appended, (uint32_t)-1 where it could not make one,
  and 0 where the table is full; the system call handler stores the answer in `ecx` of the caller.

  Main results:
    * `counted_reachable` — how far the pid of a record at null is behind the counter.
    * `answersFork_iff`   — the caller gets the pid of the one new READY task, or -1 with the table
      as it was, when the table has room, the pid is good and a failed `new` spares the records.
    * `full_table`        — forks alone fill the table.
-/
import SystemOS.Kernel.Contexts
import SystemOS.Kernel.GdtRuns
import SystemOS.Kernel.TaskTable

namespace SystemOS.Kernel.ForkCall

open SystemOS.Lib.ByteMemory SystemOS.Lib.Transition
open SystemOS.Kernel.Multitasking SystemOS.Kernel.Multitasking.TaskManager
open SystemOS.Kernel.ScheduleCall SystemOS.Kernel.SchedulerRuns SystemOS.Kernel.Contexts
open SystemOS.Kernel.GdtRuns SystemOS.Kernel.TaskTable

/-! ## §1. `forkTask`. -/

variable {k : TaskManager} {c : Nat}

theorem forkTask_full (h : 256 ≤ k.numTasks) (alloc : Option Nat) :
    k.forkTask c alloc = (k, 0) := if_pos h

/-- Where there is room but no child, the answer is -1, and the tasks stay where a failed `new`
    spares their records. -/
theorem forkTask_fails {alloc : Option Nat} (hlt : k.numTasks < 256)
    (h : ¬ (CanFork k c ∧ alloc.isSome)) :
    ∃ k', k.forkTask c alloc = (k', minusOne) ∧ k'.numTasks = k.numTasks
      ∧ ((CanFork k c → ∀ j < k.numTasks, (k.tasks j).ClearOfNull) →
        ∀ j < k.numTasks, k'.tasks j = k.tasks j) := by
  by_cases hcan : CanFork k c
  · cases alloc with
    | none =>
      refine ⟨_, forkTask_none hcan, rfl, fun hclear j hj => ?_⟩
      rw [failedNew_task k c hj]
      exact Task.afterNull_of_clear (hclear hcan j hj) _ _ _ _
    | some a => exact absurd ⟨hcan, rfl⟩ h
  · refine ⟨k, Prod.ext (forkTask_early hcan alloc) ?_, rfl, fun _ _ _ => rfl⟩
    unfold forkTask
    rw [if_neg (Nat.not_le.mpr hlt)]
    simp only
    rw [if_pos (by by_contra hsome; exact hcan ⟨hlt, not_or.mp hsome⟩)]

/-! ## §2. The system call. -/

/-- What the caller finds in `ecx` when it runs again. -/
def answer (k : TaskManager) (ev : Event) : Nat :=
  getReg (DoHandleInterrupt k ev).1.mem ev.esp .ecx

/-- `k₁` is `k` with one more task, READY, of the given pid and with 0 in its saved `ecx`. -/
structure Grown (k k₁ : TaskManager) (pid : Nat) : Prop where
  numTasks : k₁.numTasks = k.numTasks + 1
  others : ∀ j < k.numTasks, k₁.tasks j = k.tasks j
  nonzero : pid ≠ 0
  child : (k₁.tasks k.numTasks).pid = pid
  fresh : ∀ j < k.numTasks, (k₁.tasks j).pid ≠ pid
  ready : (k₁.tasks k.numTasks).taskState = .READY
  ecx : getReg k₁.mem (k₁.tasks k.numTasks).cpustate .ecx = 0

/-- `k₁` has the tasks of `k`. -/
structure SameTasks (k k₁ : TaskManager) : Prop where
  numTasks : k₁.numTasks = k.numTasks
  tasks : ∀ j < k.numTasks, k₁.tasks j = k.tasks j

/-- The caller is told the pid of the one task that `fork` has added before it calls `Schedule`, or
    -1 and no task was added. -/
def AnswersFork (k : TaskManager) (ev : Event) : Prop :=
  ∃ k₁, scheduleCall k ev = some (k₁, ev.esp) ∧ DoHandleInterrupt k ev = k₁.Schedule ev.esp ∧
    (Grown k k₁ (answer k ev) ∨ answer k ev = minusOne ∧ SameTasks k k₁)

/-- The object that `new Task` answers with lies apart from that of the current task. -/
def FreshObject (k : TaskManager) (alloc : Option Nat) : Prop :=
  ∀ a, alloc = some a → a + sizeofTask ≤ 2 ^ 32 ∧ k.current.stack + sizeofTask ≤ 2 ^ 32 ∧
    (a + sizeofTask ≤ k.current.stack ∨ k.current.stack + sizeofTask ≤ a)

/-- A `fork` that can keep its promise: the table has room, the pid of a child is not 0 and not in
    use, and a failed `new` spares the records. -/
structure CanAnswer (k : TaskManager) (ev : Event) : Prop where
  room : k.numTasks < 256
  nonzero : CanFork { k with mem := ev.mem } ev.esp → ev.alloc ≠ none → k.processCounter ≠ 0
  fresh : TakesFreshPid k ev
  spares : SparesTasks k ev

variable {ev : Event}

/-- `Schedule` writes no memory. -/
theorem schedule_mem (h : Slots k) (c : Nat) : (k.Schedule c).1.mem = k.mem := by
  have hsave : (k.saveContext c).mem = k.mem := by
    unfold saveContext
    split <;> rfl
  rcases schedule_cases h c with ⟨_, i, w, _, heq⟩ | ⟨_, heq⟩
  · rw [heq]
    exact hsave
  · rw [heq]
    exact hsave

/-- The answer is what the handler stored. -/
theorem answer_eq (hk : Shape k) (he : Enabled k ev) (h : CallsFork ev) :
    answer k ev
      = getReg (setReg (forkTask { k with mem := ev.mem } ev.esp ev.alloc).1.mem ev.esp .ecx
          (forkTask { k with mem := ev.mem } ev.esp ev.alloc).2) ev.esp .ecx := by
  obtain ⟨hcall, heq⟩ := scheduleCall_fork (k := k) h
  unfold answer
  rw [heq, schedule_mem (call_shape hk he hcall).toSlots]
  rfl

/-- A child's caller is told the counter. -/
theorem answer_child (hk : Shape k) (hpid : k.processCounter < 2 ^ 32) (he : Enabled k ev)
    (h : CallsFork ev) {a : Nat} (hfork : CanFork { k with mem := ev.mem } ev.esp)
    (halloc : ev.alloc = some a) : answer k ev = k.processCounter := by
  rw [answer_eq hk he h, halloc, forkTask_eq hfork]
  exact read_write_self _ _ hpid

/-- The `ecx` fields of the frame at `c` and of its copy for an object apart are apart. -/
theorem ecx_apart {a s : Nat} (ha : a + sizeofTask ≤ 2 ^ 32) (hs : s + sizeofTask ≤ 2 ^ 32)
    (h : a + sizeofTask ≤ s ∨ s + sizeofTask ≤ a) :
    add32 c 8 + 4 ≤ add32 (add32 a (sub32 c s)) 8 ∨
      add32 (add32 a (sub32 c s)) 8 + 4 ≤ add32 c 8 := by
  unfold sizeofTask at *
  unfold add32 sub32
  omega

/-- A fork that finds room, memory and a good pid. -/
theorem grown_of_room {a : Nat} (hk : Shape k) (hcount : k.processCounter < 2 ^ 32)
    (he : Enabled k ev) (h : CallsFork ev) (hcan : CanAnswer k ev)
    (hfork : CanFork { k with mem := ev.mem } ev.esp) (halloc : ev.alloc = some a)
    (hfresh : FreshObject k ev.alloc) : Grown k (forked k ev) (answer k ev) := by
  have hsome : ev.alloc ≠ none := by rw [halloc]; simp
  have hans := answer_child hk hcount he h hfork halloc
  obtain ⟨ha, hs, hapart⟩ := hfresh a halloc
  obtain ⟨hn, hchild, hmem, hothers⟩ := forked_child hfork halloc
  constructor
  · exact hn
  · exact hothers
  · rw [hans]
    exact hcan.nonzero hfork hsome
  · rw [hchild, hans]
    rfl
  · intro j hj
    rw [hothers j hj, hans]
    exact hcan.fresh ⟨h, hfork, hsome⟩ j hj
  · rw [hchild]
    rfl
  · rw [hchild, hmem]
    -- the pid goes into the frame of the caller, not into its copy
    have happ := ecx_apart (c := ev.esp) ha hs hapart
    exact (read_write_apart _ _ happ).trans (read_write_self _ _ (by omega))

/-- A fork that finds room in the table, but no descriptor table, entry point or memory. -/
theorem same_of_room (hk : Shape k) (he : Enabled k ev) (h : CallsFork ev) (hcan : CanAnswer k ev)
    (hfail : ¬ (CanFork { k with mem := ev.mem } ev.esp ∧ ev.alloc.isSome)) :
    answer k ev = minusOne ∧ SameTasks k (forked k ev) := by
  obtain ⟨k', heq, hn, htasks⟩ :=
    forkTask_fails (k := { k with mem := ev.mem }) hcan.room hfail
  have hclear : CanFork { k with mem := ev.mem } ev.esp →
      ∀ j < k.numTasks, (k.tasks j).ClearOfNull := fun hfork =>
    hcan.spares ⟨h, hfork, Option.not_isSome_iff_eq_none.mp fun hsome => hfail ⟨hfork, hsome⟩⟩
  refine ⟨?_, ?_, fun j hj => ?_⟩
  · rw [answer_eq hk he h, heq]
    exact read_write_self _ _ (by unfold minusOne; omega)
  · unfold forked
    rw [heq]
    exact hn
  · unfold forked
    rw [heq]
    exact htasks hclear j hj

/-- With a full table the caller is told 0, as only a child should be. -/
theorem answer_full (hk : Shape k) (he : Enabled k ev) (h : CallsFork ev)
    (hfull : 256 ≤ k.numTasks) : answer k ev = 0 := by
  rw [answer_eq hk he h, forkTask_full (k := { k with mem := ev.mem }) hfull]
  exact read_write_self _ _ (by omega)

/-! ## §3. Records at null. -/

/-- The counter is a 32-bit number, and less than a table of pids ahead of any record at null: the
    constructor gives such a record a new pid whenever `new` fails. -/
structure Counted (k : TaskManager) : Prop where
  lt : k.processCounter < 2 ^ 32
  behind : ∀ i < k.numTasks, (k.tasks i).stack = 0 →
    ∃ s < k.numTasks, k.processCounter = ((k.tasks i).pid + 1 + s) % 2 ^ 32

theorem Counted.ne_pid (h : Counted k) (hle : k.numTasks ≤ 256) {i : Nat} (hi : i < k.numTasks)
    (hnull : (k.tasks i).stack = 0) : (k.tasks i).pid ≠ k.processCounter := by
  obtain ⟨s, hs, hcount⟩ := h.behind i hi hnull
  omega

/-- Whatever keeps the addresses, the pids and the counter keeps the distance. -/
theorem Counted.of_fixed {k' : TaskManager} (h : Counted k) (hn : k'.numTasks = k.numTasks)
    (hc : k'.processCounter = k.processCounter)
    (hfixed : ∀ i < k.numTasks, fixed (k'.tasks i) = fixed (k.tasks i)) : Counted k' := by
  refine ⟨hc ▸ h.lt, fun i hi hnull => ?_⟩
  rw [hn] at hi ⊢
  have heq := hfixed i hi
  simp only [fixed, Prod.mk.injEq] at heq
  rw [heq.2.1, hc]
  exact h.behind i hi (heq.1.symm.trans hnull)

/-- A fork takes the next pid, for a child or for the object at null. -/
theorem Counted.forked (h : Counted k) (hpos : 0 < k.numTasks) (hcalls : CallsFork ev) :
    Counted (ScheduleCall.forked k ev) := by
  by_cases hcan : CanFork { k with mem := ev.mem } ev.esp
  · cases halloc : ev.alloc with
    | none =>
      obtain ⟨hn, _, hcount, htasks⟩ := forked_fails ⟨hcalls, hcan, halloc⟩
      refine ⟨hcount ▸ Nat.mod_lt _ (by decide), fun i hi hnull => ⟨0, hn ▸ hpos, ?_⟩⟩
      rw [hn] at hi
      rw [htasks i hi, Task.afterNull_stack] at hnull
      rw [htasks i hi, Task.afterNull_of_null hnull, Task.construct_pid, hcount]
      rfl
    | some a =>
      obtain ⟨hn, hchild, _, hothers⟩ := forked_child hcan halloc
      have hcount : (ScheduleCall.forked k ev).processCounter = add32 k.processCounter 1 := by
        unfold ScheduleCall.forked
        rw [halloc, forkTask_eq hcan]
        rfl
      refine ⟨hcount ▸ Nat.mod_lt _ (by decide), fun i hi hnull => ?_⟩
      rw [hn] at hi ⊢
      rcases Nat.lt_succ_iff_lt_or_eq.mp hi with hlt | rfl
      · rw [hothers i hlt] at hnull ⊢
        obtain ⟨s, hs, heq⟩ := h.behind i hlt hnull
        refine ⟨s + 1, Nat.succ_lt_succ hs, ?_⟩
        rw [hcount, heq, add32, Nat.mod_add_mod]
        rfl
      · rw [hchild, hcount]
        exact ⟨0, Nat.succ_pos _, rfl⟩
  · have hsame := forkTask_early hcan ev.alloc
    refine h.of_fixed ?_ ?_ fun i _ => ?_ <;>
      simp only [ScheduleCall.forked, hsame]

/-- No other call takes a pid. -/
theorem Counted.call (h : Counted k) (hpos : 0 < k.numTasks) {k₁ : TaskManager}
    (he : Enabled k ev) (hcall : scheduleCall k ev = some (k₁, c)) : Counted k₁ := by
  have hint := interrupted k ev
  rw [hcall] at hint
  generalize DoHandleInterrupt k ev = answer at hint
  cases hint with
  | exit hsys _ =>
    exact h.of_fixed rfl rfl fun i hi => (Handled.exited ev.mem (he hsys)).fixed_eq hi
  | waits hsys _ hb =>
    obtain ⟨j, hj, hfin, hne, _, heq⟩ := waitpidTask_blocks hb
    rw [heq]
    exact h.of_fixed rfl rfl fun i hi =>
      (Handled.blocked ev.mem ev.esp (he hsys) hj hfin hne).fixed_eq hi
  | fork hsys heax => exact h.forked hpos ⟨hsys, heax⟩
  | timer => exact h.of_fixed rfl rfl fun _ _ => rfl

theorem counted_reachable (hk : kernelSystem.Reachable k) : Shape k ∧ Counted k := by
  refine hk.invariant (I := fun k => Shape k ∧ Counted k) ?_ ?_
  · rintro k ⟨tasks, m, stack, gdt, entrypoint, rfl⟩
    refine ⟨(boot_inv ..).toShape, by show 1 < 2 ^ 32; decide, fun i hi _ => ⟨0, Nat.zero_lt_one, ?_⟩⟩
    obtain rfl : i = 0 := Nat.lt_one_iff.mp hi
    show (1 : Nat) = ((Function.update tasks 0 _ 0).pid + 1 + 0) % 2 ^ 32
    rw [Function.update_self]
    rfl
  · rintro k ev k' ⟨hshape, hcount⟩ ⟨he, rfl⟩
    refine ⟨interrupt_shape hshape he, ?_⟩
    cases hcall : scheduleCall k ev with
    | some r =>
      obtain ⟨k₁, c⟩ := r
      have hslots := (call_shape hshape he hcall).toSlots
      rw [(newFails_cases he hcall).2.1]
      exact (hcount.call hshape.pos he hcall).of_fixed (schedule_numTasks hslots c)
        (schedule_processCounter hslots c) fun i _ => schedule_fixed hslots c i
    | none =>
      have hfixed := fun i hi => (quiet_handled he hcall).fixed_eq (j := i) hi
      rcases quiet_cases he hcall with ⟨m, heq⟩ | ⟨_, m, c, heq⟩
      all_goals
        rw [heq] at hfixed ⊢
        exact hcount.of_fixed rfl rfl hfixed

/-- A record at null does not survive a failed `new`. -/
theorem not_same_of_null (hle : k.numTasks ≤ 256) (hcount : Counted k) (h : NewFails k ev) {i : Nat}
    (hi : i < k.numTasks) (hnull : (k.tasks i).stack = 0) : ¬ SameTasks k (forked k ev) := by
  intro hsame
  have htask := (forked_fails h).2.2.2 i hi
  rw [hsame.tasks i hi, Task.afterNull_of_null hnull] at htask
  exact hcount.ne_pid hle hi hnull ((congrArg Task.pid htask).trans (Task.construct_pid ..))

/-- **The answer of `fork`.**  In every reachable table the caller of `fork` is told the pid of the
    one READY task added, whose own `ecx` is 0, or -1 with no task changed, if the fork can keep this
    promise; and only then, unless a record overlaps the object at null in part. -/
theorem answersFork_iff (k : TaskManager) (ev : Event) (hk : kernelSystem.Reachable k)
    (he : Enabled k ev) (h : CallsFork ev) (hfresh : FreshObject k ev.alloc) :
    (CanAnswer k ev → AnswersFork k ev)
      ∧ ((∀ i < k.numTasks, (k.tasks i).stack = 0 ∨ (k.tasks i).ClearOfNull) →
        AnswersFork k ev → CanAnswer k ev) := by
  obtain ⟨hshape, hcount⟩ := counted_reachable hk
  obtain ⟨hcall, heq⟩ := scheduleCall_fork (k := k) h
  constructor
  · intro hcan
    refine ⟨forked k ev, hcall, heq, ?_⟩
    by_cases hfork : CanFork { k with mem := ev.mem } ev.esp ∧ ev.alloc.isSome
    · obtain ⟨hfork, hsome⟩ := hfork
      obtain ⟨a, halloc⟩ := Option.isSome_iff_exists.mp hsome
      exact .inl (grown_of_room hshape hcount.lt he h hcan hfork halloc hfresh)
    · exact .inr (same_of_room hshape he h hcan hfork)
  · rintro hplaced ⟨k₁, hcall₁, _, hanswer⟩
    obtain rfl : forked k ev = k₁ := congrArg Prod.fst (Option.some.inj (hcall.symm.trans hcall₁))
    -- a child is told as one: -1 would leave the table as it was
    have hchild : CanFork { k with mem := ev.mem } ev.esp → ev.alloc ≠ none →
        answer k ev = k.processCounter ∧ Grown k (forked k ev) (answer k ev) := by
      intro hfork hsome
      obtain ⟨a, halloc⟩ := Option.ne_none_iff_exists'.mp hsome
      refine ⟨answer_child hshape hcount.lt he h hfork halloc, hanswer.resolve_right fun hsame => ?_⟩
      have hn := (forked_child hfork halloc).1
      rw [hsame.2.numTasks] at hn
      omega
    refine ⟨?_, fun hfork hsome => ?_, fun hmakes i hi => ?_, fun hfails i hi => ?_⟩
    · by_contra hfull
      have hzero := answer_full hshape he h (Nat.not_lt.mp hfull)
      rcases hanswer with hgrown | ⟨hminus, _⟩
      · exact hgrown.nonzero hzero
      · rw [hzero] at hminus
        exact absurd hminus (by decide)
    · obtain ⟨hans, hgrown⟩ := hchild hfork hsome
      exact hans ▸ hgrown.nonzero
    · obtain ⟨hans, hgrown⟩ := hchild hmakes.2.1 hmakes.2.2
      rw [← hgrown.others i hi, ← hans]
      exact hgrown.fresh i hi
    · refine (hplaced i hi).resolve_left fun hnull => ?_
      rcases hanswer with hgrown | ⟨_, hsame⟩
      · have hn := hgrown.numTasks
        rw [(forked_fails hfails).1] at hn
        omega
      · exact not_same_of_null hshape.le hcount hfails hi hnull hsame

/-- The grandchild of the family forks. -/
theorem answersFork_iff_family :
    AnswersFork family (syscall 0x500F00 2 0 (some 0x600000)) := by
  refine (answersFork_iff family _ family_reachable (by decide +kernel) ⟨rfl, by decide⟩ ?_).1 ?_
  · intro a ha
    obtain rfl : 0x600000 = a := Option.some.inj ha
    have hstack : family.current.stack = 0x500000 := by decide +kernel
    rw [hstack]
    exact ⟨by decide, by decide, by decide⟩
  · exact ⟨by decide +kernel, fun _ _ => by decide +kernel, by decide +kernel, by decide +kernel⟩

/-! ## §4. The table fills up. -/

/-- A frame at `c` that asks for `fork` and will go on at 1 MiB. -/
def forkFrame (c : Nat) : Mem := writeWord (writeWord (fun _ => 0) c 2) (c + 32) 0x100000

/-- `fork` with its frame at `c`, the object of the child at `a`. -/
def forkAt (c : Nat) (alloc : Option Nat) : Event := ⟨syscallVector, c, forkFrame c, alloc⟩

theorem forkFrame_eax {c : Nat} (h : c + 52 ≤ 2 ^ 32) : getReg (forkFrame c) c .eax = 2 := by
  show readWord (writeWord (writeWord (fun _ => 0) c 2) (c + 32) 0x100000) (add32 c 0) = 2
  rw [add32_eq (by omega), read_write_apart _ _ (by omega)]
  exact read_write_self _ _ (by omega)

theorem forkFrame_eip {c : Nat} (h : c + 52 ≤ 2 ^ 32) :
    getReg (forkFrame c) c .eip = 0x100000 := by
  show readWord (writeWord (writeWord (fun _ => 0) c 2) (c + 32) 0x100000) (add32 c 32) = 0x100000
  rw [add32_eq (by omega)]
  exact read_write_self _ _ (by omega)

theorem forkAt_calls {c : Nat} (h : c + 52 ≤ 2 ^ 32) (alloc : Option Nat) :
    CallsFork (forkAt c alloc) := ⟨rfl, forkFrame_eax h⟩

/-- The current task of a table after `Schedule`. -/
theorem schedule_currentTask (h : Slots k) (hcur : 0 ≤ k.currentTask) (c : Nat) :
    0 ≤ (k.Schedule c).1.currentTask := by
  rcases schedule_cases h c with ⟨_, i, w, _, heq⟩ | ⟨_, heq⟩
  · rw [heq]
    exact Int.natCast_nonneg i
  · rw [heq, saveContext_currentTask]
    exact hcur

/-- A running table of `n` tasks with a descriptor table. -/
structure Running (n : Nat) (k : TaskManager) : Prop where
  reachable : kernelSystem.Reachable k
  numTasks : k.numTasks = n
  current : 0 ≤ k.currentTask
  tables : Inherited 0x1000 k

/-- The init task at 2 MiB with a descriptor table, interrupted once. -/
def runningInit : TaskManager := after (bootOver 0x200000) [tick 0x9000]

theorem running_one : Running 1 runningInit where
  reachable := reachable_after rfl (bootOver_init _)
    (by decide +kernel : Follows SparesTasks (bootOver 0x200000) [tick 0x9000])
  numTasks := by decide +kernel
  current := by decide +kernel
  tables := by
    intro i hi
    obtain rfl : i = 0 := Nat.lt_one_iff.mp hi
    decide +kernel

/-- A fork adds a task to it. -/
theorem Running.fork {n : Nat} (h : Running n k) (hn : n < 256) {c a : Nat} (hc : c + 52 ≤ 2 ^ 32)
    (ha : a ≠ 0) : ∃ k', Running (n + 1) k' := by
  have hshape := (kernelInv_reachable h.reachable).toShape
  have he : Enabled k (forkAt c (some a)) := fun _ => h.current
  obtain ⟨hcall, heq⟩ := scheduleCall_fork (k := k) (forkAt_calls hc (some a))
  have hstep : kernelSystem.step k (forkAt c (some a)) (DoHandleInterrupt k (forkAt c (some a))).1 :=
    ⟨he, rfl⟩
  have hslots := (call_shape hshape he hcall).toSlots
  have hcan : CanFork { k with mem := (forkAt c (some a)).mem } (forkAt c (some a)).esp := by
    refine ⟨by rw [h.numTasks]; exact hn, ?_, ?_⟩
    · show (k.tasks k.cur).gdt ≠ 0
      rw [(h.tables k.cur hshape.cur_lt).2]
      decide
    · show getReg (forkFrame c) c .eip ≠ 0
      rw [forkFrame_eip hc]
      decide
  have hcur : (forked k (forkAt c (some a))).currentTask = k.currentTask :=
    (call_numTasks he hcall).2
  refine ⟨_, h.reachable.next hstep, ?_, ?_, inherited_step h.tables hshape ⟨?_, ?_⟩ hstep⟩
  · rw [heq, schedule_numTasks hslots, (forked_child hcan rfl).1, h.numTasks]
  · rw [heq]
    exact schedule_currentTask hslots (by rw [hcur]; exact h.current) _
  · intro hz
    exact ha (Option.some.inj hz)
  · intro hfails
    cases hfails.2.2

/-- **Forks fill the table**: there is a run to every number of tasks, the objects of the children
    8 KiB apart. -/
theorem full_table {n : Nat} (hpos : 1 ≤ n) (hn : n ≤ 256) : ∃ k, Running n k := by
  induction n, hpos using Nat.le_induction with
  | base => exact ⟨_, running_one⟩
  | succ n hpos ih =>
    obtain ⟨k, hk⟩ := ih (by omega)
    exact hk.fork (c := 0x200FCC) (a := 0x400000 + 0x2000 * n) (by omega) (by omega) (by omega)

/-- The caller of a `fork` that finds the table full is told 0 like a child. -/
theorem full_table_answers_zero : ¬ ∀ (k : TaskManager) (ev : Event), kernelSystem.Reachable k →
    Enabled k ev → CallsFork ev → FreshObject k ev.alloc → AnswersFork k ev := by
  intro hclaim
  obtain ⟨k, hk⟩ := full_table (n := 256) (by omega) (by omega)
  have hshape := (kernelInv_reachable hk.reachable).toShape
  have he : Enabled k (forkAt 0x200FCC none) := fun _ => hk.current
  have hcalls := forkAt_calls (c := 0x200FCC) (by omega) none
  have hzero := answer_full hshape he hcalls (by rw [hk.numTasks])
  obtain ⟨k₁, _, _, hgrown | ⟨hminus, _⟩⟩ :=
    hclaim k (forkAt 0x200FCC none) hk.reachable he hcalls (fun a ha => nomatch ha)
  · exact hgrown.nonzero hzero
  · rw [hzero] at hminus
    exact absurd hminus (by decide)

end SystemOS.Kernel.ForkCall
