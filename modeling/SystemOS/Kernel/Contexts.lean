/-
  SystemOS.Kernel.Contexts — which context an interrupt returns to.

  The pointer to a task's saved context is written in five places; `recordings` lists what one
  interrupt writes, and the journal of a run what all of them have written so far.

  Main results:
    * `journal_step`           — the last entry of a task is the pointer in its record.
    * `handed_out`             — what the interrupt handler returns, and to which task.
    * `contexts_follow_tasks`  — a task continues where it was interrupted, from its new image, or
      where it was last recorded, over any sequence of interrupts.
-/
import SystemOS.Kernel.SchedulerRuns

namespace SystemOS.Kernel.Contexts

open SystemOS.Lib.ByteMemory SystemOS.Lib.Transition SystemOS.Lib.RoundRobin
open SystemOS.Kernel.Multitasking SystemOS.Kernel.Multitasking.TaskManager
open SystemOS.Kernel.ScheduleCall SystemOS.Kernel.SchedulerRuns

/-! ## §1. The journal. -/

/-- Why the pointer to a context was recorded. -/
inductive Cause
  | preempted | waiting | forked | added | execed
  deriving DecidableEq, Repr

structure Recording where
  task : Nat
  cause : Cause
  pointer : Nat
  deriving DecidableEq, Repr

/-- What a system call records before `Schedule` is called, if it is. -/
def callRecords (k : TaskManager) (ev : Event) : List Recording :=
  let k := { k with mem := ev.mem }
  if ev.interrupt = syscallVector then
    match getReg ev.mem ev.esp .eax with
    | 7 => if (waitpidTask k ev.esp).2 then [⟨k.cur, .waiting, ev.esp⟩] else []
    | 11 => [⟨k.cur, .execed, (execveTask k (getReg ev.mem ev.esp .ebx)).2⟩]
    | 2 =>
      let k' := (forkTask k ev.esp ev.alloc).1
      if k.numTasks < k'.numTasks then
        [⟨k.numTasks, .forked, (k'.tasks k.numTasks).cpustate⟩]
      else []
    | _ => []
  else []

/-- What one interrupt records: `Schedule` saves the interrupted context of the current task. -/
def recordings (k : TaskManager) (ev : Event) : List Recording :=
  callRecords k ev ++
    if (scheduleCall k ev).isSome ∧ 0 ≤ k.currentTask then [⟨k.cur, .preempted, ev.esp⟩] else []

/-- The last entry for a task. -/
def lastFor (journal : List Recording) (t : Nat) : Option Recording :=
  (journal.filter fun e => e.task = t).getLast?

/-- The kernel with the journal of its runs; `AddTask` makes the first entry. -/
def journalSystem : System (TaskManager × List Recording) Event where
  init s := kernelSystem.init s.1 ∧ s.2 = [⟨0, .added, (s.1.tasks 0).cpustate⟩]
  step s ev s' := kernelSystem.step s.1 ev s'.1 ∧ s'.2 = s.2 ++ recordings s.1 ev

theorem lastFor_append_of_none {journal es : List Recording} {t : Nat}
    (h : ∀ e ∈ es, e.task ≠ t) : lastFor (journal ++ es) t = lastFor journal t := by
  have hnil : es.filter (fun e => decide (e.task = t)) = [] := by
    rw [List.filter_eq_nil_iff]
    intro e he
    simpa using h e he
  unfold lastFor
  rw [List.filter_append, hnil, List.append_nil]

theorem lastFor_concat (journal : List Recording) (e : Recording) :
    lastFor (journal ++ [e]) e.task = some e := by
  unfold lastFor
  rw [List.filter_append, List.filter_cons_of_pos (by simp), List.filter_nil,
    List.getLast?_append]
  rfl

theorem lastFor_task {journal : List Recording} {t : Nat} {e : Recording}
    (h : lastFor journal t = some e) : e.task = t ∧ e ∈ journal := by
  have hmem := List.mem_of_getLast? h
  rw [List.mem_filter] at hmem
  exact ⟨by simpa using hmem.2, hmem.1⟩

/-! ## §2. What an interrupt records. -/

/-- The interrupt is the system call `execve`. -/
def CallsExecve (ev : Event) : Prop :=
  ev.interrupt = syscallVector ∧ getReg ev.mem ev.esp .eax = 11

/-- The kernel after `execve`, and the context it returns. -/
def execved (k : TaskManager) (ev : Event) : TaskManager × Nat :=
  execveTask { k with mem := ev.mem } (getReg ev.mem ev.esp .ebx)

/-- A call that schedules records for the caller or for a child, nothing else. -/
theorem callRecords_call {k k₁ : TaskManager} {ev : Event} {c : Nat}
    (h : scheduleCall k ev = some (k₁, c)) :
    (k₁.numTasks = k.numTasks
        ∧ ∀ e ∈ callRecords k ev, ev.interrupt = syscallVector ∧ e.task = k.cur)
      ∨ k.numTasks < k₁.numTasks
        ∧ callRecords k ev = [⟨k.numTasks, .forked, (k₁.tasks k.numTasks).cpustate⟩] := by
  have hint := interrupted k ev
  rw [h] at hint
  generalize DoHandleInterrupt k ev = answer at hint
  unfold callRecords
  simp only
  cases hint with
  | exit hsys heax =>
    rw [if_pos hsys, heax]
    exact .inl ⟨rfl, nofun⟩
  | waits hsys heax hb =>
    obtain ⟨_, _, _, _, _, heq⟩ := waitpidTask_blocks hb
    rw [if_pos hsys, heax, heq]
    simp only
    rw [if_pos hb]
    exact .inl ⟨rfl, fun e he => ⟨hsys, by rw [List.mem_singleton.mp he]; rfl⟩⟩
  | fork hsys heax =>
    rw [if_pos hsys, heax]
    simp only
    -- A `fork` that fails makes no child and has nothing to record.
    by_cases hgrown : k.numTasks < (forked k ev).numTasks
    · exact .inr ⟨hgrown, if_pos hgrown⟩
    · left
      have hsame : (forked k ev).numTasks = k.numTasks := by
        refine Nat.le_antisymm (Nat.not_lt.mp hgrown) ?_
        show k.numTasks ≤ (forkTask { k with mem := ev.mem } ev.esp ev.alloc).1.numTasks
        rcases forkTask_cases { k with mem := ev.mem } ev.esp ev.alloc with
          heq | ⟨_, heq⟩ | ⟨_, m, child, _, _, heq⟩
        · rw [heq]
        · rw [heq]
          exact Nat.le_refl _
        · rw [heq]
          exact Nat.le_succ _
      refine ⟨hsame, fun e he => ?_⟩
      rw [if_neg (show ¬ k.numTasks < (forkTask _ _ _).1.numTasks from hgrown)] at he
      exact nomatch he
  | timer hsys =>
    rw [if_neg hsys]
    exact .inl ⟨rfl, nofun⟩

/-- An interrupt that does not schedule returns the interrupted context and records nothing, or it
    is `execve`. -/
theorem quiet_answer {k : TaskManager} {ev : Event} (h : scheduleCall k ev = none) :
    (callRecords k ev = [] ∧ (DoHandleInterrupt k ev).2 = ev.esp
        ∧ ∃ m, (DoHandleInterrupt k ev).1 = { k with mem := m })
      ∨ CallsExecve ev ∧ DoHandleInterrupt k ev = execved k ev
        ∧ callRecords k ev = [⟨k.cur, .execed, (execved k ev).2⟩] := by
  have hint := interrupted k ev
  rw [h] at hint
  unfold callRecords execved
  simp only
  generalize DoHandleInterrupt k ev = answer at hint ⊢
  cases hint with
  | goesOn hsys heax hb =>
    rw [if_pos hsys, heax]
    simp only
    rw [if_neg hb]
    exact .inl ⟨rfl, trivial, ev.mem, rfl⟩
  | execve hsys heax =>
    rw [if_pos hsys, heax]
    exact .inr ⟨⟨hsys, heax⟩, rfl, rfl⟩
  | other m _ hnumber =>
    refine .inl ⟨?_, rfl, m, rfl⟩
    by_cases hsys : ev.interrupt = syscallVector
    -- A system call with another number.
    · obtain ⟨h7, h11, h2⟩ := hnumber hsys
      rw [if_pos hsys]
      split
      · next heax => exact absurd heax h7
      · next heax => exact absurd heax h11
      · next heax => exact absurd heax h2
      · rfl
    · rw [if_neg hsys]

/-! ## §3. The pointers in the records. -/

theorem saveContext_cpustate (k : TaskManager) (c t : Nat) :
    ((k.saveContext c).tasks t).cpustate
      = if 0 ≤ k.currentTask ∧ t = k.cur then c else (k.tasks t).cpustate := by
  unfold saveContext
  by_cases hcur : 0 ≤ k.currentTask
  · rw [if_pos hcur]
    by_cases ht : t = k.cur
    · subst ht
      rw [if_pos ⟨hcur, rfl⟩, setCurrent_self]
    · rw [if_neg fun h => ht h.2]
      exact congrArg Task.cpustate (setTask_of_ne _ _ ht)
  · rw [if_neg hcur, if_neg fun h => hcur h.1]

/-- `Schedule` writes a pointer for the current task only. -/
theorem schedule_cpustate {k : TaskManager} (h : Slots k) (c t : Nat) :
    ((k.Schedule c).1.tasks t).cpustate
      = if 0 ≤ k.currentTask ∧ t = k.cur then c else (k.tasks t).cpustate := by
  rw [← saveContext_cpustate]
  rcases schedule_cases h c with ⟨d, i, w, _, heq⟩ | ⟨_, heq⟩
  · rw [heq]
    by_cases hti : t = i
    · subst hti
      show (((k.saveContext c).setTask t _).tasks t).cpustate = _
      rw [setTask_self]
    · rw [select_of_ne k c w hti]
  · rw [heq]

/-- `execve` writes the pointer it returns into the record of the caller. -/
theorem execveTask_cpustate (k : TaskManager) (entrypoint t : Nat) :
    (((k.execveTask entrypoint).1.tasks t).cpustate
        = if t = k.cur then (k.execveTask entrypoint).2 else (k.tasks t).cpustate)
      ∧ (k.execveTask entrypoint).1.numTasks = k.numTasks
      ∧ (k.execveTask entrypoint).1.currentTask = k.currentTask := by
  unfold execveTask
  refine ⟨?_, rfl, rfl⟩
  simp only
  by_cases ht : t = k.cur
  · subst ht
    rw [if_pos rfl, setCurrent_self]
  · rw [if_neg ht]
    exact congrArg Task.cpustate (setTask_of_ne _ _ ht)

theorem execved_cpustate (k : TaskManager) (ev : Event) (t : Nat) :
    (((execved k ev).1.tasks t).cpustate
        = if t = k.cur then (execved k ev).2 else (k.tasks t).cpustate)
      ∧ (execved k ev).1.numTasks = k.numTasks
      ∧ (execved k ev).1.currentTask = k.currentTask :=
  execveTask_cpustate { k with mem := ev.mem } _ t

/-- The journal is up to date: the last entry of every task is the pointer in its record. -/
def Recorded (k : TaskManager) (journal : List Recording) : Prop :=
  ∀ t < k.numTasks, ∃ e, lastFor journal t = some e ∧ e.pointer = (k.tasks t).cpustate

/-- The entry that `Schedule` makes. -/
theorem recordings_call {k k₁ : TaskManager} {ev : Event} {c : Nat}
    (h : scheduleCall k ev = some (k₁, c)) (hcur : 0 ≤ k.currentTask) :
    recordings k ev = callRecords k ev ++ [⟨k.cur, .preempted, ev.esp⟩] := by
  unfold recordings
  rw [h, if_pos ⟨rfl, hcur⟩]

/-- A call leaves the pointers of the other tasks and their entries alone. -/
theorem recorded_call {k k₁ : TaskManager} {ev : Event} {c : Nat} {journal : List Recording}
    (hj : Recorded k journal) (he : Enabled k ev) (hs : SparesTasks k ev)
    (h : scheduleCall k ev = some (k₁, c)) {t : Nat}
    (ht : t < k₁.numTasks) (hne : k.currentTask ≠ t) :
    ∃ e, lastFor (journal ++ callRecords k ev) t = some e ∧ e.pointer = (k₁.tasks t).cpustate := by
  obtain ⟨_, _, hh⟩ := scheduleCall_cases he hs h
  rcases callRecords_call h with ⟨hn, hcur⟩ | ⟨hgrown, heq⟩
  · rw [lastFor_append_of_none, hh.frame (hn ▸ ht) hne]
    · exact hj t (hn ▸ ht)
    · intro e hmem htask
      obtain ⟨hsys, hcur⟩ := hcur e hmem
      exact cur_ne (he hsys) hne (htask.symm.trans hcur)
  · rw [heq]
    rcases Nat.lt_or_ge t k.numTasks with hlt | hge
    · rw [lastFor_append_of_none, hh.frame hlt hne]
      · exact hj t hlt
      · intro e hmem htask
        rw [List.mem_singleton.mp hmem] at htask
        exact absurd htask (Nat.ne_of_gt hlt)
    · -- the child
      obtain ⟨_, _, _, hsucc, _⟩ := scheduleCall_record h hgrown
      have : t = k.numTasks := by omega
      subst this
      exact ⟨_, lastFor_concat journal ⟨_, .forked, _⟩, rfl⟩

/-- **One interrupt keeps the journal up to date.** -/
theorem journal_step {k : TaskManager} {ev : Event} {journal : List Recording} (hk : Shape k)
    (hj : Recorded k journal) (he : Enabled k ev) (hs : SparesTasks k ev) :
    Recorded (DoHandleInterrupt k ev).1 (journal ++ recordings k ev) := by
  intro t ht
  rcases interrupt_cases he hs with ⟨k₁, hcall, heq, hh⟩ | ⟨hcall, _⟩
  · have hslots := (hh.shape hk).toSlots
    have hcur₁ : k₁.cur = k.cur := congrArg Int.toNat hh.currentTask
    rw [heq, schedule_numTasks hslots] at ht
    rw [heq, schedule_cpustate hslots, hh.currentTask, hcur₁]
    by_cases hcur : 0 ≤ k.currentTask
    · rw [recordings_call hcall hcur]
      -- `Schedule` saves the interrupted context for the task that was running.
      by_cases htc : t = k.cur
      · subst htc
        rw [if_pos ⟨hcur, rfl⟩, ← List.append_assoc]
        exact ⟨_, lastFor_concat _ ⟨_, .preempted, _⟩, rfl⟩
      · have hne : k.currentTask ≠ t := fun hct => htc (by unfold cur; omega)
        rw [if_neg fun h => htc h.2, ← List.append_assoc, lastFor_append_of_none]
        · exact recorded_call hj he hs hcall ht hne
        · intro e hmem htask
          rw [List.mem_singleton.mp hmem] at htask
          exact htc htask.symm
    -- No task was running yet, so that nothing is saved.
    · have hrec : recordings k ev = callRecords k ev := by
        unfold recordings
        rw [if_neg fun h => hcur h.2, List.append_nil]
      rw [hrec, if_neg fun h => hcur h.1]
      exact recorded_call hj he hs hcall ht (by omega)
  · have hrec : recordings k ev = callRecords k ev := by
      unfold recordings
      rw [hcall, if_neg fun h => by simp at h, List.append_nil]
    rw [hrec]
    rcases quiet_answer hcall with ⟨hnil, _, m, heq⟩ | ⟨_, heq, hexec⟩
    · rw [heq] at ht ⊢
      rw [hnil, List.append_nil]
      exact hj t ht
    · obtain ⟨hpointer, hn, _⟩ := execved_cpustate k ev t
      rw [heq] at ht ⊢
      rw [hn] at ht
      rw [hexec, hpointer]
      -- The new image is recorded for the caller.
      by_cases htc : t = k.cur
      · subst htc
        rw [if_pos rfl]
        exact ⟨_, lastFor_concat journal ⟨_, .execed, _⟩, rfl⟩
      · rw [if_neg htc, lastFor_append_of_none]
        · exact hj t ht
        · intro e hmem htask
          rw [List.mem_singleton.mp hmem] at htask
          exact htc htask.symm

/-! ## §4. The new image of `execve`. -/

/-- Registers of one frame are words apart, also where the frame wraps around. -/
theorem reg_apart (c : Nat) {r s : Reg} (h : r ≠ s) :
    add32 c r.offset + 4 ≤ add32 c s.offset ∨ add32 c s.offset + 4 ≤ add32 c r.offset := by
  have hoff : r.offset ≤ 48 ∧ s.offset ≤ 48
      ∧ (r.offset + 4 ≤ s.offset ∨ s.offset + 4 ≤ r.offset) := by
    cases r <;> cases s <;> first | exact absurd rfl h | decide
  unfold add32
  omega

theorem getReg_setReg_of_ne (m : Mem) (c : Nat) {r s : Reg} (v : Nat) (h : r ≠ s) :
    getReg (setReg m c s v) c r = getReg m c r :=
  read_write_apart m v (reg_apart c h.symm)

theorem getReg_lt (m : Mem) (c : Nat) (r : Reg) : getReg m c r < 2 ^ 32 := by
  have h0 := (m (add32 c r.offset)).toNat_lt
  have h1 := (m (add32 c r.offset + 1)).toNat_lt
  have h2 := (m (add32 c r.offset + 2)).toNat_lt
  have h3 := (m (add32 c r.offset + 3)).toNat_lt
  unfold getReg readWord
  omega

/-- The context that `execve` returns starts at the entry point. -/
theorem execved_eip (k : TaskManager) (ev : Event) :
    getReg (execved k ev).1.mem (execved k ev).2 .eip = getReg ev.mem ev.esp .ebx := by
  unfold execved execveTask
  simp only
  -- Three registers are written after `eip`.
  rw [getReg_setReg_of_ne _ _ _ (by decide), getReg_setReg_of_ne _ _ _ (by decide),
    getReg_setReg_of_ne _ _ _ (by decide)]
  exact read_write_self _ _ (getReg_lt _ _ _)

/-! ## §5. The context returned. -/

/-- **What the handler returns**: the interrupted context or the new image, to the task that was
    running, or what the record of the task selected now holds. -/
theorem handed_out {k : TaskManager} {ev : Event} (hk : Shape k) (he : Enabled k ev) :
    ((DoHandleInterrupt k ev).1.currentTask = k.currentTask
        ∧ ((DoHandleInterrupt k ev).2 = ev.esp
          ∨ CallsExecve ev ∧ DoHandleInterrupt k ev = execved k ev))
      ∨ ∃ k₁ i, scheduleCall k ev = some (k₁, ev.esp) ∧ i < k₁.numTasks
        ∧ (DoHandleInterrupt k ev).1.currentTask = (i : Int)
        ∧ (DoHandleInterrupt k ev).2 = ((DoHandleInterrupt k ev).1.tasks i).cpustate := by
  cases hcall : scheduleCall k ev with
  | some r =>
    obtain ⟨k₁, c⟩ := r
    obtain ⟨rfl, heq, _⟩ := newFails_cases he hcall
    have hslots := (call_shape hk he hcall).toSlots
    rcases schedule_cases hslots ev.esp with ⟨d, i, w, hfirst, hsel⟩ | ⟨_, hsel⟩
    · right
      refine ⟨k₁, i, rfl, hfirst.lt, by rw [heq, hsel]; rfl, ?_⟩
      rw [heq, schedule_cpustate hslots, ← saveContext_cpustate, hsel]
    · left
      rw [heq, hsel, saveContext_currentTask, (call_numTasks he hcall).2]
      exact ⟨rfl, .inl rfl⟩
  | none =>
    left
    rcases quiet_answer hcall with ⟨_, hesp, m, heq⟩ | ⟨hexec, heq, _⟩
    · exact ⟨by rw [heq], .inl hesp⟩
    · exact ⟨by rw [heq, (execved_cpustate k ev 0).2.2], .inr ⟨hexec, heq⟩⟩

/-- A call of `Schedule` leaves the interrupted context in the record of the task that was running. -/
theorem saved_current {k k₁ : TaskManager} {ev : Event} {c t : Nat} (hk : Shape k)
    (he : Enabled k ev) (hcall : scheduleCall k ev = some (k₁, c)) (ht : k.currentTask = t) :
    ((DoHandleInterrupt k ev).1.tasks t).cpustate = ev.esp := by
  obtain ⟨rfl, heq, _⟩ := newFails_cases he hcall
  have hcur := (call_numTasks he hcall).2
  have hcur₁ : k₁.cur = t := by
    unfold cur
    rw [hcur, ht]
    rfl
  rw [heq, schedule_cpustate (call_shape hk he hcall).toSlots, hcur₁, hcur, ht]
  exact if_pos ⟨Int.natCast_nonneg t, rfl⟩

/-- A task that loses the processor has the interrupted context in its record. -/
theorem suspended {k : TaskManager} {ev : Event} {t : Nat} (hk : Shape k) (he : Enabled k ev)
    (ht : k.currentTask = t) (hleft : (DoHandleInterrupt k ev).1.currentTask ≠ t) :
    ((DoHandleInterrupt k ev).1.tasks t).cpustate = ev.esp := by
  rcases handed_out hk he with ⟨hsame, _⟩ | ⟨k₁, i, hcall, _⟩
  · exact absurd (hsame.trans ht) hleft
  · exact saved_current hk he hcall ht

/-- An interrupt of another task leaves the pointer of a task alone. -/
theorem undisturbed {k : TaskManager} {ev : Event} {t : Nat} (hk : Shape k) (he : Enabled k ev)
    (hs : SparesTasks k ev) (ht : t < k.numTasks) (hne : k.currentTask ≠ t) :
    ((DoHandleInterrupt k ev).1.tasks t).cpustate = (k.tasks t).cpustate := by
  cases hcall : scheduleCall k ev with
  | some r =>
    obtain ⟨k₁, c⟩ := r
    obtain ⟨_, heq, hh⟩ := scheduleCall_cases he hs hcall
    -- `Schedule` saves for the current task, which is not `t`.
    have hnot : ¬ (0 ≤ k₁.currentTask ∧ t = k₁.cur) := by
      rw [hh.currentTask]
      rintro ⟨hcur, htc⟩
      have : k₁.cur = k.cur := congrArg Int.toNat hh.currentTask
      exact cur_ne hcur hne (htc.trans this)
    rw [heq, schedule_cpustate (hh.shape hk).toSlots, if_neg hnot, hh.frame ht hne]
  | none =>
    rw [(quiet_handled he hcall).frame ht hne]

/-- So it stays over any run in which the task is not current. -/
theorem undisturbed_run {k k' : TaskManager} {evs : List Event} {t : Nat} (hk : Shape k)
    (ht : t < k.numTasks)
    (hrun : (kernelSystem.restrict fun k ev => k.currentTask ≠ t ∧ SparesTasks k ev).Exec k evs k') :
    Shape k' ∧ t < k'.numTasks ∧ (k'.tasks t).cpustate = (k.tasks t).cpustate := by
  refine hrun.invariant (I := fun k' => Shape k' ∧ t < k'.numTasks
    ∧ (k'.tasks t).cpustate = (k.tasks t).cpustate) ?_ ⟨hk, ht, rfl⟩
  rintro s ev s' ⟨hshape, hts, heq⟩ ⟨⟨hne, hs⟩, he, rfl⟩
  exact ⟨interrupt_shape hshape he, lt_of_lt_of_le hts (interrupt_numTasks_le hshape he),
    (undisturbed hshape he hs hts hne).trans heq⟩

/-! ## §6. Runs. -/

/-- The runs with their journal in which every failed `new` spares the records of the tasks. -/
def sparingSystem : System (TaskManager × List Recording) Event :=
  journalSystem.restrict fun s ev => SparesTasks s.1 ev

theorem journal_reachable {k : TaskManager} {journal : List Recording}
    (h : sparingSystem.Reachable (k, journal)) : Shape k ∧ Recorded k journal := by
  refine h.invariant (I := fun s => Shape s.1 ∧ Recorded s.1 s.2) ?_ ?_
  · rintro ⟨k, journal⟩ ⟨⟨tasks, m, stack, gdt, entrypoint, hboot⟩, hjournal⟩
    simp only at hboot hjournal
    subst hboot hjournal
    refine ⟨(boot_inv tasks m stack gdt entrypoint).toShape, fun t ht => ?_⟩
    have : t = 0 := Nat.lt_one_iff.mp ht
    subst this
    exact ⟨_, lastFor_concat [] ⟨0, .added, _⟩, rfl⟩
  · rintro ⟨k, journal⟩ ev ⟨k', journal'⟩ ⟨hk, hj⟩ ⟨hs, ⟨he, hnext⟩, hjournal⟩
    simp only at hk hj he hnext hjournal
    subst hnext hjournal
    exact ⟨interrupt_shape hk he, journal_step hk hj he hs⟩

/-- Where the context comes from that an interrupt returns to task `t`, after the run with this
    journal: it is the context just interrupted and `t` was running, or the pointer last recorded for
    `t`.  A task that was running goes on where it was interrupted, or at the entry point that it
    asked `execve` for; one that was suspended by an earlier interrupt goes on where that interrupt
    found it, whatever happened in between by steps that meet `C`. -/
structure ContinuesTask (C : TaskManager → Event → Prop) (k : TaskManager)
    (journal : List Recording) (ev : Event) (t : Nat) : Prop where
  recorded : k.currentTask = t ∧ (DoHandleInterrupt k ev).2 = ev.esp
    ∨ ∃ e, lastFor (journal ++ recordings k ev) t = some e ∧ e.task = t
      ∧ (DoHandleInterrupt k ev).2 = e.pointer
  running : k.currentTask = t → (DoHandleInterrupt k ev).2 = ev.esp
    ∨ CallsExecve ev ∧ getReg (DoHandleInterrupt k ev).1.mem (DoHandleInterrupt k ev).2 .eip
        = getReg ev.mem ev.esp .ebx
  resumed : k.currentTask ≠ t → ∀ k₀ ev₀ evs, kernelSystem.Reachable k₀ → Enabled k₀ ev₀ →
    k₀.currentTask = t →
    (kernelSystem.restrict fun k ev => k.currentTask ≠ t ∧ C k ev).Exec
      (DoHandleInterrupt k₀ ev₀).1 evs k →
    (DoHandleInterrupt k ev).2 = ev₀.esp

/-- **Contexts follow tasks.**  In every run whose failed `new`s spare the records of the tasks, the
    context that the handler returns while task `t` is current continues task `t`. -/
theorem contexts_follow_tasks {k : TaskManager} {journal : List Recording}
    (h : sparingSystem.Reachable (k, journal)) {ev : Event} (he : Enabled k ev)
    (hs : SparesTasks k ev) {t : Nat} (ht : (DoHandleInterrupt k ev).1.currentTask = t) :
    ContinuesTask SparesTasks k journal ev t := by
  obtain ⟨hk, hj⟩ := journal_reachable h
  have hj' := journal_step hk hj he hs
  -- the entry behind the pointer in the record of `t`
  have hentry : t < (DoHandleInterrupt k ev).1.numTasks →
      (DoHandleInterrupt k ev).2 = ((DoHandleInterrupt k ev).1.tasks t).cpustate →
      ∃ e, lastFor (journal ++ recordings k ev) t = some e ∧ e.task = t
        ∧ (DoHandleInterrupt k ev).2 = e.pointer := by
    intro hlt hpointer
    obtain ⟨e, hlast, heq⟩ := hj' t hlt
    exact ⟨e, hlast, (lastFor_task hlast).1, hpointer.trans heq.symm⟩
  have hlt : t < (DoHandleInterrupt k ev).1.numTasks := by
    have := (interrupt_shape hk he).hi
    omega
  rcases handed_out hk he with ⟨hsame, hesp | ⟨hexec, heq⟩⟩ | ⟨k₁, i, hcall, _, hi, hpointer⟩
  · -- the interrupted task goes on
    have hcur : k.currentTask = t := hsame.symm.trans ht
    exact ⟨.inl ⟨hcur, hesp⟩, fun _ => .inl hesp, fun hne => absurd hcur hne⟩
  · -- a new image
    have hcur : k.currentTask = t := hsame.symm.trans ht
    refine ⟨.inr (hentry hlt ?_), fun _ => .inr ⟨hexec, ?_⟩, fun hne => absurd hcur hne⟩
    · rw [heq, (execved_cpustate k ev t).1, if_pos]
      unfold cur
      omega
    · rw [heq]
      exact execved_eip k ev
  · -- the task that `Schedule` selected
    obtain rfl : i = t := by omega
    refine ⟨.inr (hentry hlt hpointer), fun hcur => .inl ?_, fun hne k₀ ev₀ evs hk₀ he₀ hcur hrun => ?_⟩
    · rw [hpointer, saved_current hk he hcall hcur]
    · have hshape := (kernelInv_reachable hk₀).toShape
      -- The earlier interrupt took the processor from the task: either the run between is empty
      -- and `i` is not current at its end, or its first step is one of another task.
      have hleft : (DoHandleInterrupt k₀ ev₀).1.currentTask ≠ i := by
        cases hrun with
        | nil => exact hne
        | cons hst _ => exact hst.1.1
      have hlt₀ : i < (DoHandleInterrupt k₀ ev₀).1.numTasks := by
        have h1 := hshape.hi
        have h2 := interrupt_numTasks_le hshape he₀
        omega
      obtain ⟨_, hlt', hkept⟩ := undisturbed_run (interrupt_shape hshape he₀) hlt₀ hrun
      rw [hpointer, undisturbed hk he hs hlt' hne, hkept, suspended hshape he₀ hcur hleft]

/-- The journal after the interrupts `evs`. -/
def journalAfter (k : TaskManager) (journal : List Recording) : List Event → List Recording
  | [] => journal
  | ev :: evs => journalAfter (DoHandleInterrupt k ev).1 (journal ++ recordings k ev) evs

theorem journal_exec {C : TaskManager → Event → Prop} {evs : List Event} : ∀ {k : TaskManager}
    {journal : List Recording}, Follows C k evs →
    (journalSystem.restrict fun s ev => C s.1 ev).Exec (k, journal) evs
      (after k evs, journalAfter k journal evs) := by
  induction evs with
  | nil => exact fun _ => .nil _
  | cons ev evs ih =>
    intro k journal h
    obtain ⟨hC, he, hrest⟩ := h
    have hst : (journalSystem.restrict fun s ev => C s.1 ev).step (k, journal) ev
        ((DoHandleInterrupt k ev).1, journal ++ recordings k ev) := ⟨hC, ⟨he, rfl⟩, rfl⟩
    exact .cons hst (ih hrest)

/-- The journal that `AddTask` starts. -/
def added (k : TaskManager) : List Recording := [⟨0, .added, (k.tasks 0).cpustate⟩]

theorem journal_after {C : TaskManager → Event → Prop} {evs : List Event} {k : TaskManager}
    (h0 : kernelSystem.init k) (h : Follows C k evs) :
    (journalSystem.restrict fun s ev => C s.1 ev).Reachable
      (after k evs, journalAfter k (added k) evs) :=
  (journal_exec h).reachable (.start ⟨h0, rfl⟩)

/-- The grandchild is preempted: the init task gets back the frame of its own `fork`. -/
theorem contexts_follow_tasks_family :
    ContinuesTask SparesTasks family
        (journalAfter (bootOver 0x200000) (added (bootOver 0x200000)) births) (tick 0x500F00) 0
      ∧ (DoHandleInterrupt family (tick 0x500F00)).2 = 0x200F00 := by
  have he : Enabled family (tick 0x500F00) := by decide +kernel
  have hcont := contexts_follow_tasks (journal_after (bootOver_init _) births_follow) he
    (by decide +kernel) (t := 0) (by decide +kernel)
  refine ⟨hcont, ?_⟩
  -- the init task forked when it was the only task, and only its child has run since
  have hforked : kernelSystem.Reachable (after (bootOver 0x200000) [tick 0x9000]) :=
    reachable_after rfl (bootOver_init _)
      (by decide +kernel : Follows SparesTasks (bootOver 0x200000) [tick 0x9000])
  refine hcont.resumed (by decide +kernel) _ (syscall 0x200F00 2 0 (some 0x400000))
    [syscall 0x400F00 2 0 (some 0x500000)] hforked (by decide +kernel) (by decide +kernel) ?_
  exact .cons ⟨⟨by decide +kernel, by decide +kernel⟩, by decide +kernel, rfl⟩ (.nil _)

/-- Slot 0 points nowhere, and a fork of slot 1 fails: the init task gets the frame that the
    constructor has left below address 4096, not that of its own `fork`. -/
theorem frame_of_nobody : ¬ ∀ k journal ev t, journalSystem.Reachable (k, journal) → Enabled k ev →
    (DoHandleInterrupt k ev).1.currentTask = (t : Nat) →
    ContinuesTask (fun _ _ => True) k journal ev t := by
  intro hclaim
  have hrun : Follows (fun _ _ => True) (bootOver 0)
      [tick 0x9000, syscall 0xF00 2 0 (some 0x400000)] := by decide +kernel
  have hcont := hclaim _ _ (syscall 0x400F00 2 0 none) 0
    (journal_after (bootOver_init _) hrun).of_restrict (by decide +kernel) (by decide +kernel)
  rcases hcont.recorded with ⟨hcur, _⟩ | ⟨e, hlast, _, hpointer⟩
  · exact absurd hcur (by decide +kernel)
  · -- the last entry of the init task is the frame of its `fork`
    have hentry : e = ⟨0, .preempted, 0xF00⟩ :=
      Option.some.inj (hlast.symm.trans (by decide +kernel))
    rw [hentry] at hpointer
    exact absurd hpointer (by decide +kernel)

end SystemOS.Kernel.Contexts
