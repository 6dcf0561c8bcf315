/-
  SystemOS.Kernel.WaitFor — cycles of tasks that wait for each other.

  `waitpid` blocks its caller on any task of the table but itself: it looks at the awaited task's
  state and never at whether that task is a child of the caller, or already waits for it.

  Main results:
    * `acyclic_call`  — the wait-for edges that a call of `Schedule` finds.
    * `acyclic_step`  — an interrupt that blocks nobody on a task that reaches it closes no cycle.
    * `cyclic_step`   — one that does closes a cycle.
-/
import SystemOS.Lib.WaitGraph
import SystemOS.Kernel.TaskTable

namespace SystemOS.Kernel.WaitFor

open Relation
open SystemOS.Lib.ByteMemory SystemOS.Lib.Transition SystemOS.Lib.WaitGraph
open SystemOS.Kernel.Multitasking SystemOS.Kernel.Multitasking.TaskManager
open SystemOS.Kernel.ScheduleCall SystemOS.Kernel.SchedulerRuns SystemOS.Kernel.TaskTable

/-! ## §1. The wait-for relation. -/

/-- The task in slot `i` is WAITING for the one in slot `j`. -/
def WaitsFor (k : TaskManager) (i j : Nat) : Prop :=
  i < k.numTasks ∧ j < k.numTasks ∧ (k.tasks i).taskState = .WAITING
    ∧ (k.tasks j).pid = (k.tasks i).waitPid

instance (k : TaskManager) (i j : Nat) : Decidable (WaitsFor k i j) := by
  unfold WaitsFor
  infer_instance

/-- The interrupt is the system call `waitpid` for the pid of slot `j`. -/
def CallsWaitpid (k : TaskManager) (ev : Event) (j : Nat) : Prop :=
  ev.interrupt = syscallVector ∧ getReg ev.mem ev.esp .eax = 7 ∧ j < k.numTasks
    ∧ (k.tasks j).pid = getReg ev.mem ev.esp .ebx

instance (k : TaskManager) (ev : Event) (j : Nat) : Decidable (CallsWaitpid k ev j) := by
  unfold CallsWaitpid
  infer_instance

/-- No `waitpid` is called for a task that already waits for the caller, perhaps through others,
    unless its pid is the caller's or 0. -/
def AwaitsFreely (k : TaskManager) (ev : Event) : Prop :=
  ∀ j, CallsWaitpid k ev j → (k.tasks j).pid ≠ k.current.pid → (k.tasks j).pid ≠ 0 →
    ¬ TransGen (WaitsFor k) j k.cur

/-- If the interrupt is a `fork` whose `new` fails, every record of the table is the object at null
    or apart from it. -/
def WritesWhole (k : TaskManager) (ev : Event) : Prop :=
  NewFails k ev → ∀ i < k.numTasks, (k.tasks i).stack = 0 ∨ (k.tasks i).ClearOfNull

/-- Both of them. -/
def AwaitsApart (k : TaskManager) (ev : Event) : Prop := AwaitsFreely k ev ∧ WritesWhole k ev

/-- The pids of the table are distinct. -/
def Distinct (k : TaskManager) : Prop :=
  ∀ i < k.numTasks, ∀ j < k.numTasks, (k.tasks i).pid = (k.tasks j).pid → i = j

instance (k : TaskManager) : Decidable (Distinct k) := by
  unfold Distinct
  infer_instance

/-! ## §2. The edges that `Schedule` finds and leaves. -/

/-- A new record of the current task has its own edges, -/
theorem waitsFor_setCurrent_self {k : TaskManager} {t : Multitasking.Task} (m : Mem)
    (hpid : t.pid = k.current.pid) {j : Nat} :
    WaitsFor { k.setCurrent t with mem := m } k.cur j ↔
      k.cur < k.numTasks ∧ j < k.numTasks ∧ t.taskState = .WAITING ∧ (k.tasks j).pid = t.waitPid := by
  show k.cur < k.numTasks ∧ j < k.numTasks ∧ ((k.setCurrent t).tasks k.cur).taskState = .WAITING
    ∧ ((k.setCurrent t).tasks j).pid = ((k.setCurrent t).tasks k.cur).waitPid ↔ _
  rw [setCurrent_self, setCurrent_field Task.pid k hpid j]

/-- and the edges of the others stay. -/
theorem waitsFor_setCurrent_of_ne {k : TaskManager} {t : Multitasking.Task} (m : Mem)
    (hpid : t.pid = k.current.pid) {i j : Nat} (hi : i ≠ k.cur) :
    WaitsFor { k.setCurrent t with mem := m } i j ↔ WaitsFor k i j := by
  have hother : (k.setCurrent t).tasks i = k.tasks i := setTask_of_ne _ _ hi
  show i < k.numTasks ∧ j < k.numTasks ∧ ((k.setCurrent t).tasks i).taskState = .WAITING
    ∧ ((k.setCurrent t).tasks j).pid = ((k.setCurrent t).tasks i).waitPid ↔ _
  rw [hother, setCurrent_field Task.pid k hpid j]
  rfl

/-- Over any table, a fork adds edges to READY tasks only: those that were waiting for the pid of
    the child, or for the new pid of the object at null. -/
theorem waitsFor_forked {k : TaskManager} {ev : Event} (hcalls : CallsFork ev)
    (hwhole : WritesWhole k ev) {i j : Nat} (hij : WaitsFor (forked k ev) i j) :
    WaitsFor k i j ∨ ((forked k ev).tasks j).taskState = .READY := by
  obtain ⟨hi, hj, hw, hpid⟩ := hij
  by_cases hcan : CanFork { k with mem := ev.mem } ev.esp
  · cases halloc : ev.alloc with
    | none =>
      have hfails : NewFails k ev := ⟨hcalls, hcan, halloc⟩
      obtain ⟨hn, _, _, htasks⟩ := forked_fails hfails
      rw [hn] at hi hj
      -- a record is as it was, or has just been constructed
      have hslot : ∀ l < k.numTasks, (forked k ev).tasks l = k.tasks l
          ∨ ((forked k ev).tasks l).taskState = .READY := by
        intro l hl
        rw [htasks l hl]
        rcases hwhole hfails l hl with hnull | hclear
        · right
          rw [Task.afterNull_of_null hnull, Task.construct_taskState]
        · exact .inl (Task.afterNull_of_clear hclear _ _ _ _)
      rcases hslot j hj with hsame | hready
      · left
        rcases hslot i hi with hisame | hready
        · rw [hisame] at hw hpid
          rw [hsame] at hpid
          exact ⟨hi, hj, hw, hpid⟩
        · rw [hready] at hw
          cases hw
      · exact .inr hready
    | some a =>
      obtain ⟨hn, hchild, _, hothers⟩ := forked_child hcan halloc
      rw [hn] at hi hj
      rcases Nat.lt_succ_iff_lt_or_eq.mp hj with hj | rfl
      · left
        rcases Nat.lt_succ_iff_lt_or_eq.mp hi with hi | rfl
        · rw [hothers i hi] at hw hpid
          rw [hothers j hj] at hpid
          exact ⟨hi, hj, hw, hpid⟩
        · rw [hchild] at hw
          cases hw
      · right
        rw [hchild]
        rfl
  · left
    simp only [forked, forkTask_early hcan] at hi hj hw hpid
    exact ⟨hi, hj, hw, hpid⟩

/-- The record of a caller that `waitpid` blocks. -/
def blockedTask (k : TaskManager) (ev : Event) : Multitasking.Task :=
  { k.current with taskState := .WAITING, waitPid := getReg ev.mem ev.esp .ebx, cpustate := ev.esp }

/-- The table with which a blocking `waitpid` calls `Schedule`. -/
def blockedTable (k : TaskManager) (ev : Event) : TaskManager :=
  { k.setCurrent (blockedTask k ev) with mem := ev.mem }

/-- **A `waitpid` that blocks** leaves the caller with the edges to the tasks of this pid, and the
    others with theirs. -/
theorem waitsFor_blocked {k : TaskManager} {ev : Event} (i j : Nat) :
    WaitsFor (blockedTable k ev) i j ↔ i ≠ k.cur ∧ WaitsFor k i j
      ∨ i = k.cur ∧ k.cur < k.numTasks ∧ j < k.numTasks
        ∧ (k.tasks j).pid = getReg ev.mem ev.esp .ebx := by
  have hsame : (blockedTask k ev).pid = k.current.pid := rfl
  by_cases hic : i = k.cur
  · subst hic
    rw [blockedTable, waitsFor_setCurrent_self ev.mem hsame]
    constructor
    · rintro ⟨hi, hj, _, hpid⟩
      exact .inr ⟨rfl, hi, hj, hpid⟩
    · rintro (⟨hne, _⟩ | ⟨_, hi, hj, hpid⟩)
      · exact absurd rfl hne
      · exact ⟨hi, hj, rfl, hpid⟩
  · rw [blockedTable, waitsFor_setCurrent_of_ne ev.mem hsame hic]
    constructor
    · exact fun h => .inl ⟨hic, h⟩
    · rintro (⟨_, h⟩ | ⟨heq, _⟩)
      · exact h
      · exact absurd heq hic

/-- The call of a `waitpid` that blocks. -/
theorem blockedTable_eq {k : TaskManager} {ev : Event}
    (hb : (waitpidTask { k with mem := ev.mem } ev.esp).2 = true) :
    (waitpidTask { k with mem := ev.mem } ev.esp).1 = blockedTable k ev := by
  obtain ⟨_, _, _, _, _, heq⟩ := waitpidTask_blocks hb
  rw [heq]
  rfl

/-- **The edges of a call** close no cycle, if the interrupt awaits freely. -/
theorem acyclic_call {k k₁ : TaskManager} {ev : Event} {c : Nat}
    (hcall : scheduleCall k ev = some (k₁, c)) (hapart : AwaitsApart k ev)
    (h : Acyclic (WaitsFor k)) : Acyclic (WaitsFor k₁) := by
  have hint := interrupted k ev
  rw [hcall] at hint
  generalize DoHandleInterrupt k ev = answer at hint
  cases hint with
  | exit =>
    refine h.mono fun i j hij => ?_
    have hsame : ({ k.current with taskState := .FINISHED } : Multitasking.Task).pid
      = k.current.pid := rfl
    by_cases hic : i = k.cur
    · -- the caller is FINISHED
      subst hic
      obtain ⟨_, _, hw, _⟩ := (waitsFor_setCurrent_self ev.mem hsame).mp hij
      cases hw
    · exact (waitsFor_setCurrent_of_ne ev.mem hsame hic).mp hij
  | waits hsys heax hb =>
    obtain ⟨_, _, _, hself, hzero, _⟩ := waitpidTask_blocks hb
    rw [blockedTable_eq hb]
    refine h.insert (a := k.cur)
      (T := fun j => j < k.numTasks ∧ (k.tasks j).pid = getReg ev.mem ev.esp .ebx)
      (fun j hj hreach => ?_) fun i j hij => ?_
    · have hne : (k.tasks j).pid ≠ k.current.pid := fun heq => hself (hj.2.symm.trans heq)
      rcases reflTransGen_iff_eq_or_transGen.mp hreach with heq | hreach
      · exact hne (heq ▸ rfl)
      · exact hapart.1 j ⟨hsys, heax, hj⟩ hne (fun hz => hzero (hj.2.symm.trans hz)) hreach
    · rcases (waitsFor_blocked i j).mp hij with ⟨_, hij⟩ | ⟨hic, _, hj⟩
      · exact .inl hij
      · exact .inr ⟨hic, hj⟩
  | fork hsys heax =>
    refine h.of_ends fun i j hij => ?_
    rcases waitsFor_forked ⟨hsys, heax⟩ hapart.2 hij with hij | hready
    · exact .inl hij
    · right
      rintro l ⟨_, _, hw, _⟩
      rw [hready] at hw
      cases hw
  | timer => exact h

theorem waitsFor_saveContext (k : TaskManager) (c i j : Nat) :
    WaitsFor (k.saveContext c) i j ↔ WaitsFor k i j := by
  simp [WaitsFor]

/-- `Schedule` adds no edge: the slot it selects is READY afterwards. -/
theorem waitsFor_of_schedule {k : TaskManager} (h : Slots k) (c : Nat) {i j : Nat}
    (hij : WaitsFor (k.Schedule c).1 i j) : WaitsFor k i j := by
  rcases schedule_cases h c with ⟨d, s, w, _, heq⟩ | ⟨_, heq⟩
  · rw [heq] at hij
    obtain ⟨hi, hj, hw, hpid⟩ := hij
    by_cases his : i = s
    · subst his
      rw [select_self] at hw
      cases hw
    · rw [select_of_ne k c w his, saveContext_taskState] at hw
      rw [select_pid, select_of_ne k c w his, saveContext_waitPid] at hpid
      rw [select_numTasks] at hi hj
      exact ⟨hi, hj, hw, hpid⟩
  · rw [heq, waitsFor_saveContext] at hij
    exact hij

/-- `Schedule` keeps an edge to a task that is itself WAITING: it releases only tasks that await a
    FINISHED one. -/
theorem waitsFor_schedule {k : TaskManager} (h : Slots k) (hd : Distinct k) (c : Nat) {i j l : Nat}
    (hij : WaitsFor k i j) (hjl : WaitsFor k j l) : WaitsFor (k.Schedule c).1 i j := by
  rcases schedule_cases h c with ⟨d, s, w, hfirst, heq⟩ | ⟨_, heq⟩
  · obtain ⟨hi, hj, hw, hpid⟩ := hij
    have his : i ≠ s := by
      intro his
      obtain ⟨_, hready | ⟨_, n, hn, hnp, hfin⟩⟩ := hfirst.holds
      · rw [← his, hw] at hready
        cases hready
      · -- the awaited task would be WAITING and FINISHED
        have hnj : n = j := hd n hn j hj (by rw [hnp.2.1, ← his, hpid])
        rw [hnj, hjl.2.2.1] at hfin
        cases hfin
    rw [heq]
    refine ⟨by rwa [select_numTasks], by rwa [select_numTasks], ?_, ?_⟩
    · rw [select_of_ne k c w his, saveContext_taskState, hw]
    · rw [select_pid, select_of_ne k c w his, saveContext_waitPid, hpid]
  · rw [heq, waitsFor_saveContext]
    exact hij

/-- An interrupt that does not schedule adds no edge. -/
theorem waitsFor_quiet {k : TaskManager} {ev : Event} (he : Enabled k ev)
    (h : scheduleCall k ev = none) {i j : Nat} (hij : WaitsFor (DoHandleInterrupt k ev).1 i j) :
    WaitsFor k i j := by
  rcases quiet_cases he h with ⟨m, heq⟩ | ⟨hcur, m, c, heq⟩
  · rw [heq] at hij
    exact hij
  · rw [heq] at hij
    have hsame : ({ k.current with taskState := .READY, cpustate := c } : Multitasking.Task).pid
      = k.current.pid := rfl
    by_cases hic : i = k.cur
    · -- `execve` makes the caller READY
      subst hic
      obtain ⟨_, _, hw, _⟩ := (waitsFor_setCurrent_self m hsame).mp hij
      cases hw
    · exact (waitsFor_setCurrent_of_ne m hsame hic).mp hij

/-! ## §3. Cycles. -/

/-- **An interrupt that awaits freely closes no cycle.** -/
theorem acyclic_step {k : TaskManager} {ev : Event} (hk : Slots k) (he : Enabled k ev)
    (hapart : AwaitsApart k ev) (h : Acyclic (WaitsFor k)) :
    Acyclic (WaitsFor (DoHandleInterrupt k ev).1) := by
  cases hcall : scheduleCall k ev with
  | some r =>
    obtain ⟨k₁, c⟩ := r
    rw [(newFails_cases he hcall).2.1]
    exact (acyclic_call hcall hapart h).mono fun _ _ hij =>
      waitsFor_of_schedule (call_slots hk he hcall) c hij
  | none => exact h.mono fun _ _ hij => waitsFor_quiet he hcall hij

/-- `waitpid` blocks its caller on the one task with a pid other than the caller's and 0, if this
    task is not FINISHED. -/
theorem blocks_of_distinct {k : TaskManager} {ev : Event} (hk : Slots k) (hd : Distinct k) {j : Nat}
    (hcalls : CallsWaitpid k ev j) (hself : (k.tasks j).pid ≠ k.current.pid)
    (hzero : (k.tasks j).pid ≠ 0) (hfin : (k.tasks j).taskState ≠ .FINISHED) :
    (waitpidTask { k with mem := ev.mem } ev.esp).2 = true := by
  obtain ⟨_, _, hj, hpid⟩ := hcalls
  have hother : ¬ ((k.tasks j).pid = ({ k with mem := ev.mem } : TaskManager).current.pid
      ∨ (k.tasks j).pid = 0) := not_or.mpr ⟨hself, hzero⟩
  unfold waitpidTask
  simp only
  rw [← hpid, if_neg hother]
  rcases getTaskIndex_cases { k with mem := ev.mem } (k.tasks j).pid with ⟨l, hl, hidx⟩ | ⟨_, hnone⟩
  · obtain rfl : l = j := hd l hl.1 j hj hl.2.1
    rw [hidx, if_neg (slot_ne_minusOne hk hj), if_neg hfin]
  · exact absurd rfl (hnone j hj)

/-- **An interrupt that blocks the caller on a task that waits for it closes a cycle.** -/
theorem cyclic_step {k : TaskManager} {ev : Event} (hk : Slots k) (hd : Distinct k)
    (he : Enabled k ev) (hnot : ¬ AwaitsFreely k ev) :
    ¬ Acyclic (WaitsFor (DoHandleInterrupt k ev).1) := by
  unfold AwaitsFreely at hnot
  push Not at hnot
  obtain ⟨j, hcalls, hself, hzero, hreach⟩ := hnot
  have hcur : k.cur < k.numTasks := cur_lt hk (he hcalls.1)
  -- the awaited task is itself WAITING, so the call blocks
  have hb := blocks_of_distinct hk hd hcalls hself hzero fun hfin => by
    obtain ⟨l, ⟨_, _, hw, _⟩, _⟩ := TransGen.head'_iff.mp hreach
    rw [hw] at hfin
    cases hfin
  have hcall : scheduleCall k ev = some (blockedTable k ev, ev.esp) := by
    rw [← blockedTable_eq hb]
    unfold scheduleCall
    simp only
    rw [if_pos hcalls.1, hcalls.2.1]
    simp only
    rw [if_pos hb]
  have hnew : WaitsFor (blockedTable k ev) k.cur j :=
    (waitsFor_blocked _ _).mpr (.inr ⟨rfl, hcur, hcalls.2.2⟩)
  have hcycle : TransGen (WaitsFor (blockedTable k ev)) k.cur k.cur :=
    cycle_of_insert hreach.to_reflTransGen hnew fun i l hic hil =>
      (waitsFor_blocked i l).mpr (.inl ⟨hic, hil⟩)
  have hd₁ : Distinct (blockedTable k ev) := fun i hi l hl heq => by
    have hpid := setCurrent_field Multitasking.Task.pid k (t := blockedTask k ev) rfl
    exact hd i hi l hl (((hpid i).symm.trans heq).trans (hpid l))
  -- every task of the cycle awaits a WAITING one, so `Schedule` releases none of them
  have hcontinues := walk_continues hcycle ⟨j, hnew⟩
  rw [(newFails_cases he hcall).2.1]
  intro hacyclic
  refine hacyclic k.cur (TransGen.mono (fun i l hil => ?_) _ _ hcontinues)
  obtain ⟨hil, z, hlz⟩ := hil
  exact waitsFor_schedule (call_slots hk he hcall) hd₁ _ hil hlz

/-- **Deadlocks of `waitpid`.**  A run in which no `waitpid` is called for a task that waits for the
    caller, perhaps through others, has no cycle of waiting tasks in any state; and a step of any
    run that does so, from a table with distinct pids, leaves one. -/
theorem waits_acyclic (k : TaskManager) :
    ((taskSystem.restrict AwaitsApart).Reachable k → Acyclic (WaitsFor k))
      ∧ ∀ ev k', taskSystem.Reachable k → Distinct k → taskSystem.step k ev k' →
          ¬ AwaitsFreely k ev → ¬ Acyclic (WaitsFor k') := by
  refine ⟨fun hk => ?_, fun ev k' hk hd hst hnot => ?_⟩
  · have hinv : Acyclic (WaitsFor k) ∧ Slots k := by
      refine hk.invariant (I := fun k => Acyclic (WaitsFor k) ∧ Slots k) (fun k h0 => ?_)
        fun k ev k' h hst => ?_
      · obtain ⟨_, _, hsetup⟩ := h0
        refine ⟨fun i hi => ?_, setup_slots hsetup⟩
        -- before the first interrupt every slot is READY
        obtain ⟨j, ⟨hlt, _, hw, _⟩, _⟩ := TransGen.head'_iff.mp hi
        rw [((setup_inv hsetup).slot i hlt).2.2] at hw
        cases hw
      · obtain ⟨hacyclic, hslots⟩ := h
        obtain ⟨hapart, he, rfl⟩ := hst
        exact ⟨acyclic_step hslots he hapart hacyclic, slots_step hslots he⟩
    exact hinv.1
  · obtain ⟨he, rfl⟩ := hst
    exact cyclic_step (slots_reachable hk) hd he hnot

/-- A `waitpid` for a task that is not WAITING awaits freely. -/
theorem awaitsApart_of_awake {k : TaskManager} {ev : Event} (hs : SparesTasks k ev)
    (h : ∀ j < k.numTasks, CallsWaitpid k ev j → (k.tasks j).taskState ≠ .WAITING) :
    AwaitsApart k ev := by
  refine ⟨fun j hcalls _ _ hreach => ?_, fun hfails i hi => .inr (hs hfails i hi)⟩
  obtain ⟨l, ⟨hlt, _, hw, _⟩, _⟩ := TransGen.head'_iff.mp hreach
  exact h j hlt hcalls hw

/-- In the family the grandchild calls `waitpid` for the child, and a tick gives the child the
    processor. -/
def awaited : List Event := births ++ [syscall 0x500F00 7 1 none, tick 0x200F00]

/-- The family after that. -/
def waiting : TaskManager := after (bootOver 0x200000) awaited

/-- The child calls `waitpid` for the grandchild. -/
def back : Event := syscall 0x400F00 7 2 none

theorem waiting_reachable : (taskSystem.restrict AwaitsApart).Reachable waiting := by
  have hfollows : Follows (fun k ev => SparesTasks k ev
      ∧ ∀ j < k.numTasks, CallsWaitpid k ev j → (k.tasks j).taskState ≠ .WAITING)
      (bootOver 0x200000) awaited := by
    decide +kernel
  have hrun := exec_after (S := taskSystem) rfl
    (hfollows.mono fun _ _ h => awaitsApart_of_awake h.1 h.2)
  exact hrun.reachable (.start (bootOver_setup _))

theorem step_back : taskSystem.step waiting back (DoHandleInterrupt waiting back).1 :=
  ⟨fun _ => by decide +kernel, rfl⟩

/-- The grandchild waits for the child, and the child may not wait for it then. -/
theorem waits_acyclic_crosswise : Acyclic (WaitsFor waiting)
    ∧ ¬ Acyclic (WaitsFor (DoHandleInterrupt waiting back).1) := by
  refine ⟨(waits_acyclic waiting).1 waiting_reachable, ?_⟩
  refine (waits_acyclic waiting).2 back _ waiting_reachable.of_restrict (by decide +kernel)
    step_back ?_
  intro hfree
  have hedge : WaitsFor waiting 2 1 := by decide +kernel
  exact hfree 2 (by decide +kernel) (by decide +kernel) (by decide +kernel) (.single hedge)

/-- Child and grandchild wait for each other. -/
theorem waits_crosswise : ¬ ∀ k, taskSystem.Reachable k → Acyclic (WaitsFor k) := by
  intro hclaim
  have hthere : WaitsFor (DoHandleInterrupt waiting back).1 1 2 := by decide +kernel
  have hback : WaitsFor (DoHandleInterrupt waiting back).1 2 1 := by decide +kernel
  exact hclaim _ (.next waiting_reachable.of_restrict step_back) 1 (.tail (.single hthere) hback)

end SystemOS.Kernel.WaitFor
