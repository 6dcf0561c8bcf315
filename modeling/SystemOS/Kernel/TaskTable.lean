/-
  SystemOS.Kernel.TaskTable — the task table over runs that register any tasks.

  `SchedulerRuns` starts from the table of `kernelMain`, in which pids are slot numbers.  Here any
  `Task` objects are constructed and any of them registered, each at most once, so a slot's pid is
  whatever its object was given.

  Main results:
    * `table_step`         — one interrupt keeps the table in order, if it spares the records and
      takes a pid that is not in use.
    * `task_table_in_order` — bounds, distinct pids, lookups, awaited tasks and parents, in every
      state of every run of such steps.
    * `counter_comes_round` — failed forks alone bring the 32-bit counter back to any pid.
-/
import Mathlib.Data.List.Perm.Subperm
import SystemOS.Kernel.SchedulerRuns

namespace SystemOS.Kernel.TaskTable

open SystemOS.Lib.ByteMemory SystemOS.Lib.Transition
open SystemOS.Kernel.Multitasking SystemOS.Kernel.Multitasking.TaskManager
open SystemOS.Kernel.ScheduleCall SystemOS.Kernel.SchedulerRuns

/-! ## §1. Setting up. -/

/-- `sizeof(Task)`: the stack and six fields of 4 bytes. -/
def sizeofTask : Nat := 4120

/-- The kernel before the first interrupt: `objects` are the `Task` objects constructed so far and
    `added` the indices of those given to `AddTask`.  Objects do not overlap. -/
inductive Setup : TaskManager → List Multitasking.Task → List Nat → Prop
  | empty (tasks : Nat → Task) (m : Mem) : Setup
      { tasks := tasks, numTasks := 0, currentTask := -1, processCounter := 0, mem := m } [] []
  | construct {k : TaskManager} {objects : List Multitasking.Task} {added : List Nat}
      (stack gdt entrypoint : Nat) : Setup k objects added → stack + sizeofTask ≤ 2 ^ 32 →
      (∀ t ∈ objects, stack + sizeofTask ≤ t.stack ∨ t.stack + sizeofTask ≤ stack) →
      Setup { k with
          mem := (Multitasking.Task.construct k.mem k.processCounter stack gdt entrypoint).1
          processCounter := (Multitasking.Task.construct k.mem k.processCounter stack gdt entrypoint).2.1 }
        (objects ++ [(Multitasking.Task.construct k.mem k.processCounter stack gdt entrypoint).2.2]) added
  | add {k : TaskManager} {objects : List Multitasking.Task} {added : List Nat} {i : Nat} {task : Multitasking.Task} :
      Setup k objects added → objects[i]? = some task → i ∉ added →
      Setup (k.AddTask task).1 objects (added ++ [i])

/-- Runs that register tasks and then take interrupts. -/
def taskSystem : System TaskManager Event where
  init k := ∃ objects added, Setup k objects added
  step := kernelSystem.step

/-- The table of `kernelMain` is one of them. -/
theorem boot_setup (tasks : Nat → Task) (m : Mem) {stack : Nat} (gdt entrypoint : Nat)
    (hstack : stack + sizeofTask ≤ 2 ^ 32) : taskSystem.init (boot tasks m stack gdt entrypoint) := by
  have h0 := Setup.construct stack gdt entrypoint (.empty tasks m) hstack nofun
  exact ⟨_, _, .add (i := 0) h0 rfl nofun⟩

/-! ## §2. The invariant of the setup. -/

/-- Objects that do not overlap are few. -/
theorem length_le_of_apart {starts : List Nat} (hfit : ∀ a ∈ starts, a + sizeofTask ≤ 2 ^ 32)
    (hapart : starts.Pairwise fun a b => a + sizeofTask ≤ b ∨ b + sizeofTask ≤ a) :
    starts.length ≤ 2 ^ 20 := by
  -- two of them never start in the same block of the size of a `Task`
  have hnodup : (starts.map (· / sizeofTask)).Nodup := by
    refine List.pairwise_map.mpr (hapart.imp fun h heq => ?_)
    unfold sizeofTask at h heq
    omega
  have hsub : starts.map (· / sizeofTask) ⊆ List.range (2 ^ 20) := by
    intro n hn
    obtain ⟨a, ha, rfl⟩ := List.mem_map.mp hn
    have := hfit a ha
    rw [List.mem_range]
    unfold sizeofTask at *
    omega
  have hlen := (List.subperm_of_subset hnodup hsub).length_le
  rwa [List.length_map, List.length_range] at hlen

/-- The objects have the numbers of their construction, and the slots those of the objects added. -/
structure SetupInv (k : TaskManager) (objects : List Multitasking.Task) (added : List Nat) : Prop where
  counter : k.processCounter = objects.length
  pid : ∀ (i : Nat) (task : Multitasking.Task), objects[i]? = some task → task.pid = i
  fit : ∀ a ∈ objects.map Multitasking.Task.stack, a + sizeofTask ≤ 2 ^ 32
  apart : (objects.map Multitasking.Task.stack).Pairwise fun a b => a + sizeofTask ≤ b ∨ b + sizeofTask ≤ a
  le : k.numTasks ≤ 256
  current : k.currentTask = -1
  slot : ∀ i < k.numTasks, (k.tasks i).pid ∈ added ∧ (k.tasks i).pid < objects.length
    ∧ (k.tasks i).taskState = .READY
  distinct : ∀ i < k.numTasks, ∀ j < k.numTasks, (k.tasks i).pid = (k.tasks j).pid → i = j

theorem addTask_cases (k : TaskManager) (task : Multitasking.Task) :
    (k.AddTask task).1 = k
      ∨ k.numTasks < 256 ∧ (k.AddTask task).1.numTasks = k.numTasks + 1
        ∧ (k.AddTask task).1.currentTask = k.currentTask
        ∧ (k.AddTask task).1.processCounter = k.processCounter
        ∧ ((k.AddTask task).1.tasks k.numTasks).pid = task.pid
        ∧ ((k.AddTask task).1.tasks k.numTasks).taskState = .READY
        ∧ ∀ i < k.numTasks, (k.AddTask task).1.tasks i = k.tasks i := by
  unfold AddTask
  split
  · exact .inl rfl
  · next hfull =>
    refine .inr ⟨by omega, rfl, rfl, rfl, ?_, ?_, fun i hi => ?_⟩
    · show ((k.setTask k.numTasks _).tasks k.numTasks).pid = _
      rw [setTask_self]
    · show ((k.setTask k.numTasks _).tasks k.numTasks).taskState = _
      rw [setTask_self]
    · exact setTask_of_ne _ _ (Nat.ne_of_lt hi)

section SetupSteps

variable {k : TaskManager} {objects : List Multitasking.Task} {added : List Nat}

/-- The constructed object has the next number, and room below 2^32. -/
theorem setupInv_construct {stack : Nat} (gdt entrypoint : Nat) (h : SetupInv k objects added)
    (hfit : stack + sizeofTask ≤ 2 ^ 32)
    (hapart : ∀ t ∈ objects, stack + sizeofTask ≤ t.stack ∨ t.stack + sizeofTask ≤ stack) :
    SetupInv { k with
        mem := (Multitasking.Task.construct k.mem k.processCounter stack gdt entrypoint).1
        processCounter := (Multitasking.Task.construct k.mem k.processCounter stack gdt entrypoint).2.1 }
      (objects ++ [(Multitasking.Task.construct k.mem k.processCounter stack gdt entrypoint).2.2])
      added := by
  have hstarts : (objects ++ [(Multitasking.Task.construct k.mem k.processCounter stack gdt
      entrypoint).2.2]).map Multitasking.Task.stack
        = objects.map Multitasking.Task.stack ++ [stack] := List.map_append
  have hfit' : ∀ a ∈ objects.map Multitasking.Task.stack ++ [stack], a + sizeofTask ≤ 2 ^ 32 := by
    intro a ha
    rcases List.mem_append.mp ha with ha | ha
    · exact h.fit a ha
    · rw [List.mem_singleton.mp ha]
      exact hfit
  have hapart' : (objects.map Multitasking.Task.stack ++ [stack]).Pairwise
      fun a b => a + sizeofTask ≤ b ∨ b + sizeofTask ≤ a := by
    refine List.pairwise_append.mpr ⟨h.apart, List.pairwise_singleton _ _, fun a ha b hb => ?_⟩
    obtain ⟨t, ht, rfl⟩ := List.mem_map.mp ha
    rw [List.mem_singleton.mp hb]
    exact (hapart t ht).symm
  -- so many objects cannot fit, and the counter does not wrap
  have hcount := length_le_of_apart hfit' hapart'
  rw [List.length_append, List.length_map, List.length_singleton] at hcount
  refine ⟨?_, fun i t ht => ?_, by rw [hstarts]; exact hfit', by rw [hstarts]; exact hapart', h.le,
    h.current, fun i hi => ?_, h.distinct⟩
  · show add32 k.processCounter 1 = _
    rw [List.length_append, List.length_singleton, h.counter, add32_eq (by omega)]
  · rcases Nat.lt_or_ge i objects.length with hi | hi
    · rw [List.getElem?_append_left hi] at ht
      exact h.pid i t ht
    · rw [List.getElem?_append_right hi] at ht
      have hlast := (List.getElem?_eq_some_iff.mp ht).1
      rw [List.length_singleton] at hlast
      have hi' : i = objects.length := by omega
      subst hi'
      rw [Nat.sub_self] at ht
      cases ht
      exact h.counter
  · obtain ⟨h1, h2, h3⟩ := h.slot i hi
    refine ⟨h1, ?_, h3⟩
    rw [List.length_append]
    exact Nat.lt_add_right _ h2

theorem setupInv_add {i : Nat} {task : Multitasking.Task} (h : SetupInv k objects added)
    (htask : objects[i]? = some task) (hnew : i ∉ added) :
    SetupInv (k.AddTask task).1 objects (added ++ [i]) := by
  have hslot : ∀ j < k.numTasks, (k.tasks j).pid ∈ added ++ [i]
      ∧ (k.tasks j).pid < objects.length ∧ (k.tasks j).taskState = .READY := by
    intro j hj
    obtain ⟨h1, h2, h3⟩ := h.slot j hj
    exact ⟨List.mem_append_left _ h1, h2, h3⟩
  rcases addTask_cases k task with heq | ⟨hlt, hnum, hcur, hcounter, hpid, hready, hold⟩
  · rw [heq]
    exact ⟨h.counter, h.pid, h.fit, h.apart, h.le, h.current, hslot, h.distinct⟩
  have htaskpid := h.pid i task htask
  have hi : i < objects.length := (List.getElem?_eq_some_iff.mp htask).1
  -- the new slot has the number of an object that was not added before
  have hfresh : ∀ j < k.numTasks, (k.tasks j).pid ≠ i := fun j hj heq =>
    hnew (heq ▸ (h.slot j hj).1)
  refine ⟨hcounter.trans h.counter, h.pid, h.fit, h.apart, by omega, hcur.trans h.current,
    fun j hj => ?_, fun j hj l hl heq => ?_⟩
  · rw [hnum] at hj
    rcases Nat.lt_succ_iff_lt_or_eq.mp hj with hj | rfl
    · rw [hold j hj]
      exact hslot j hj
    · rw [hpid, htaskpid]
      exact ⟨List.mem_append_right _ (List.mem_singleton_self i), hi, hready⟩
  · rw [hnum] at hj hl
    rcases Nat.lt_succ_iff_lt_or_eq.mp hj with hj | rfl <;>
      rcases Nat.lt_succ_iff_lt_or_eq.mp hl with hl | rfl
    · rw [hold j hj, hold l hl] at heq
      exact h.distinct j hj l hl heq
    · rw [hold j hj, hpid, htaskpid] at heq
      exact absurd heq (hfresh j hj)
    · rw [hold l hl, hpid, htaskpid] at heq
      exact absurd heq.symm (hfresh l hl)
    · rfl

theorem setup_inv (h : Setup k objects added) : SetupInv k objects added := by
  induction h with
  | empty tasks m => exact ⟨rfl, nofun, nofun, .nil, Nat.zero_le _, rfl, nofun, nofun⟩
  | construct stack gdt entrypoint _ hfit hapart ih =>
    exact setupInv_construct gdt entrypoint ih hfit hapart
  | add _ htask hnew ih => exact setupInv_add ih htask hnew

end SetupSteps

/-! ## §3. What an interrupt adds to the table. -/

/-- A table that has grown when `Schedule` is called has grown by a child of the current task. -/
theorem scheduleCall_child {k k₁ : TaskManager} {ev : Event} {c : Nat} (he : Enabled k ev)
    (h : scheduleCall k ev = some (k₁, c)) (hgrown : k.numTasks < k₁.numTasks) :
    0 ≤ k.currentTask ∧ (k₁.tasks k.numTasks).ppid = k.current.pid := by
  obtain ⟨⟨hfork, _⟩, a, _, _, hchild⟩ := scheduleCall_record h hgrown
  refine ⟨he hfork.1, ?_⟩
  rw [hchild]
  rfl

/-- If the interrupt is a `fork` that makes a child, the counter is the pid of no task. -/
def TakesFreshPid (k : TaskManager) (ev : Event) : Prop :=
  CallsFork ev ∧ CanFork { k with mem := ev.mem } ev.esp ∧ ev.alloc ≠ none →
    ∀ i < k.numTasks, (k.tasks i).pid ≠ k.processCounter

instance (k : TaskManager) (ev : Event) : Decidable (TakesFreshPid k ev) := by
  unfold TakesFreshPid CallsFork CanFork
  infer_instance

/-- A failed `new` spares the records of the tasks, and a child gets a pid that is not in use. -/
def KeepsInOrder (k : TaskManager) (ev : Event) : Prop :=
  SparesTasks k ev ∧ TakesFreshPid k ev

instance (k : TaskManager) (ev : Event) : Decidable (KeepsInOrder k ev) :=
  inferInstanceAs (Decidable (_ ∧ _))

/-! ## §4. The invariant of the runs. -/

/-- The table in order, with `registered` slots from the setup: pids are distinct, parents sit in
    smaller slots, and a WAITING task awaits another slot. -/
structure Table (registered : Nat) (k : TaskManager) : Prop extends Slots k where
  distinct : ∀ i < k.numTasks, ∀ j < k.numTasks, (k.tasks i).pid = (k.tasks j).pid → i = j
  parent : ∀ i, registered ≤ i → i < k.numTasks → ∃ j < i, (k.tasks i).ppid = (k.tasks j).pid
  waits : ∀ i < k.numTasks, (k.tasks i).taskState = .WAITING →
    ∃ j < k.numTasks, j ≠ i ∧ (k.tasks j).pid = (k.tasks i).waitPid

theorem setup_slots {k : TaskManager} {objects : List Multitasking.Task} {added : List Nat}
    (h : Setup k objects added) : Slots k := by
  have hinv := setup_inv h
  refine ⟨hinv.le, hinv.current.ge, ?_⟩
  rw [hinv.current]
  omega

theorem setup_table {k : TaskManager} {objects : List Multitasking.Task} {added : List Nat}
    (h : Setup k objects added) : Table k.numTasks k where
  toSlots := setup_slots h
  distinct := (setup_inv h).distinct
  parent := fun i h1 h2 => absurd h2 (Nat.not_lt.mpr h1)
  waits := by
    intro i hi hwait
    rw [((setup_inv h).slot i hi).2.2] at hwait
    cases hwait

theorem cur_lt {k : TaskManager} (h : Slots k) (hcur : 0 ≤ k.currentTask) : k.cur < k.numTasks := by
  have := h.hi
  unfold cur
  omega

/-- A table that has not grown stays in order when pids and parents stay and every WAITING task
    still awaits another slot. -/
theorem Table.of_frame {r : Nat} {k k' : TaskManager} (h : Table r k)
    (hn : k'.numTasks = k.numTasks) (hlo : -1 ≤ k'.currentTask) (hhi : k'.currentTask < k'.numTasks)
    (hsame : ∀ j < k.numTasks, (k'.tasks j).pid = (k.tasks j).pid
      ∧ (k'.tasks j).ppid = (k.tasks j).ppid)
    (hwaits : ∀ i < k.numTasks, (k'.tasks i).taskState = .WAITING →
      ∃ j < k.numTasks, j ≠ i ∧ (k.tasks j).pid = (k'.tasks i).waitPid) : Table r k' where
  le := by rw [hn]; exact h.le
  lo := hlo
  hi := hhi
  distinct := by
    rw [hn]
    intro i hi j hj heq
    rw [(hsame i hi).1, (hsame j hj).1] at heq
    exact h.distinct i hi j hj heq
  parent := by
    rw [hn]
    intro i hr hi
    obtain ⟨j, hj, heq⟩ := h.parent i hr hi
    exact ⟨j, hj, by rw [(hsame i hi).2, (hsame j (hj.trans hi)).1, heq]⟩
  waits := by
    rw [hn]
    intro i hi hwait
    obtain ⟨j, hj, hne, heq⟩ := hwaits i hi hwait
    exact ⟨j, hj, hne, by rw [(hsame j hj).1, heq]⟩

/-- A table that has grown by a child of one of its slots stays in order. -/
theorem Table.grow {r : Nat} {k k' : TaskManager} (h : Table r k) (hlt : k.numTasks < 256)
    (hn : k'.numTasks = k.numTasks + 1) (hcur : k'.currentTask = k.currentTask)
    (hfresh : ∀ i < k.numTasks, (k.tasks i).pid ≠ k.processCounter)
    (hold : ∀ i < k.numTasks, k'.tasks i = k.tasks i)
    (hready : (k'.tasks k.numTasks).taskState = .READY)
    (hpid : (k'.tasks k.numTasks).pid = k.processCounter)
    (hppid : ∃ j < k.numTasks, (k'.tasks k.numTasks).ppid = (k.tasks j).pid) : Table r k' := by
  have hslot : ∀ i < k'.numTasks, i < k.numTasks ∨ i = k.numTasks := fun i hi => by omega
  refine ⟨⟨by omega, hcur ▸ h.lo, ?_⟩, fun i hi j hj heq => ?_, fun i hri hi => ?_,
    fun i hi hwait => ?_⟩
  · have := h.hi
    omega
  · -- the child's pid is none of the others
    rcases hslot i hi with hi | rfl <;> rcases hslot j hj with hj | rfl
    · rw [hold i hi, hold j hj] at heq
      exact h.distinct i hi j hj heq
    · rw [hold i hi, hpid] at heq
      exact absurd heq (hfresh i hi)
    · rw [hold j hj, hpid] at heq
      exact absurd heq.symm (hfresh j hj)
    · rfl
  · rcases hslot i hi with hi | rfl
    · obtain ⟨j, hj, heq⟩ := h.parent i hri hi
      exact ⟨j, hj, by rw [hold i hi, hold j (hj.trans hi), heq]⟩
    · obtain ⟨j, hj, heq⟩ := hppid
      exact ⟨j, hj, by rw [hold j hj, heq]⟩
  · rcases hslot i hi with hi | rfl
    · rw [hold i hi] at hwait ⊢
      obtain ⟨j, hj, hne, heq⟩ := h.waits i hi hwait
      exact ⟨j, by omega, hne, by rw [hold j hj, heq]⟩
    · rw [hready] at hwait
      cases hwait

/-- The record of the current task may change in what is neither its pid nor its parent, as long as
    it awaits another slot if it is WAITING. -/
theorem Table.setCurrent {r : Nat} {k : TaskManager} (h : Table r k) (m : Mem) {t : Multitasking.Task}
    (hpid : t.pid = k.current.pid) (hppid : t.ppid = k.current.ppid)
    (hwaits : t.taskState = .WAITING →
      ∃ j < k.numTasks, j ≠ k.cur ∧ (k.tasks j).pid = t.waitPid) :
    Table r { k.setCurrent t with mem := m } := by
  refine h.of_frame rfl h.lo h.hi (fun j _ => ⟨setCurrent_field Task.pid k hpid j,
    setCurrent_field Task.ppid k hppid j⟩) fun i hi hwait => ?_
  by_cases hic : i = k.cur
  · subst hic
    have hself : (k.setCurrent t).tasks k.cur = t := setCurrent_self ..
    rw [hself] at hwait ⊢
    exact hwaits hwait
  · have hother : (k.setCurrent t).tasks i = k.tasks i := setTask_of_ne _ _ hic
    rw [hother] at hwait ⊢
    exact h.waits i hi hwait

/-- A system call keeps the table in order. -/
theorem Handled.table {r : Nat} {k k₁ : TaskManager} (h : Table r k) (hh : Handled k k₁)
    (hchild : k.numTasks < k₁.numTasks → 0 ≤ k.currentTask
      ∧ (k₁.tasks k.numTasks).ppid = k.current.pid
      ∧ ∀ i < k.numTasks, (k.tasks i).pid ≠ k.processCounter) : Table r k₁ := by
  cases hh with
  | same m => exact h.of_frame rfl h.lo h.hi (fun _ _ => ⟨rfl, rfl⟩) h.waits
  | exited m _ => exact h.setCurrent m rfl rfl nofun
  | @blocked m pid j c hcur hj _ hne =>
    refine h.setCurrent m rfl rfl fun _ => ⟨j, hj.1, fun hjc => hne ?_, hj.2.1⟩
    rw [← hj.2.1, hjc]
    rfl
  | readied m c _ => exact h.setCurrent m rfl rfl nofun
  | spared m tasks counter hsame =>
    refine h.of_frame rfl h.lo h.hi (fun j hj => ?_) fun i hi hwait => ?_
    · show (tasks j).pid = _ ∧ (tasks j).ppid = _
      rw [hsame j hj]
      exact ⟨rfl, rfl⟩
    · change (tasks i).taskState = _ at hwait
      show ∃ j < k.numTasks, j ≠ i ∧ (k.tasks j).pid = (tasks i).waitPid
      rw [hsame i hi] at hwait ⊢
      exact h.waits i hi hwait
  | @forked m child hlt hready hpid =>
    have hself : (k.setTask k.numTasks child).tasks k.numTasks = child := setTask_self ..
    obtain ⟨hcur, hppid, hfresh⟩ := hchild (Nat.lt_succ_self _)
    refine h.grow hlt rfl rfl hfresh (fun i hi => setTask_of_ne k child (Nat.ne_of_lt hi)) ?_ ?_
      ⟨k.cur, cur_lt h.toSlots hcur, hppid⟩
    · rw [hself, hready]
    · rw [hself, hpid]

/-- So does the call that an interrupt makes, if it keeps in order. -/
theorem Table.call {r : Nat} {k k₁ : TaskManager} {ev : Event} {c : Nat} (h : Table r k)
    (he : Enabled k ev) (hkeeps : KeepsInOrder k ev) (hcall : scheduleCall k ev = some (k₁, c)) :
    Table r k₁ := by
  refine Handled.table h (scheduleCall_cases he hkeeps.1 hcall).2.2 fun hgrown => ?_
  obtain ⟨hcur, hppid⟩ := scheduleCall_child he hcall hgrown
  obtain ⟨⟨hfork, hcan⟩, a, halloc, _⟩ := scheduleCall_record hcall hgrown
  exact ⟨hcur, hppid, hkeeps.2 ⟨hfork, hcan, by rw [halloc]; simp⟩⟩

/-- `Schedule` keeps the table in order. -/
theorem Table.schedule {r : Nat} {k : TaskManager} (h : Table r k) (c : Nat) :
    Table r (k.Schedule c).1 := by
  have hsaved : Table r (k.saveContext c) := by
    refine h.of_frame (saveContext_numTasks k c)
      (by rw [saveContext_currentTask]; exact h.lo)
      (by rw [saveContext_currentTask, saveContext_numTasks]; exact h.hi) (fun j _ => ?_)
      fun i hi hwait => ?_
    · obtain ⟨c', heq⟩ := saveContext_task k c j
      rw [heq]
      exact ⟨rfl, rfl⟩
    · rw [saveContext_taskState] at hwait
      rw [saveContext_waitPid]
      exact h.waits i hi hwait
  rcases schedule_cases h.toSlots c with ⟨d, i, w, hfirst, heq⟩ | ⟨_, heq⟩
  · -- the selected task is READY, the others are as they were saved
    rw [heq]
    have hlt : i < (k.saveContext c).numTasks := by
      rw [saveContext_numTasks]
      exact hfirst.lt
    refine hsaved.of_frame rfl (by show (-1 : Int) ≤ (i : Int); omega)
      (Int.ofNat_lt.mpr hlt) (fun j _ => ?_) fun j hj hwait => ?_
    · by_cases hji : j = i
      · subst hji
        show (((k.saveContext c).setTask j _).tasks j).pid = _
          ∧ (((k.saveContext c).setTask j _).tasks j).ppid = _
        rw [setTask_self]
        exact ⟨rfl, rfl⟩
      · rw [select_of_ne k c w hji]
        exact ⟨rfl, rfl⟩
    · by_cases hji : j = i
      · subst hji
        rw [select_self] at hwait
        cases hwait
      · rw [select_of_ne k c w hji] at hwait ⊢
        exact hsaved.waits j hj hwait
  · rw [heq]
    exact hsaved

/-- **One interrupt keeps the table in order.** -/
theorem table_step {r : Nat} {k : TaskManager} {ev : Event} (h : Table r k) (he : Enabled k ev)
    (hkeeps : KeepsInOrder k ev) : Table r (DoHandleInterrupt k ev).1 := by
  cases hcall : scheduleCall k ev with
  | some s =>
    obtain ⟨k₁, c⟩ := s
    rw [(newFails_cases he hcall).2.1]
    exact (h.call he hkeeps hcall).schedule c
  | none =>
    rcases quiet_cases he hcall with ⟨m, heq⟩ | ⟨hcur, m, c, heq⟩
    · rw [heq]
      exact Handled.table h (.same m) fun hgrown => absurd hgrown (lt_irrefl _)
    · rw [heq]
      exact h.setCurrent m rfl rfl nofun

/-- The table is in bounds after any interrupt. -/
theorem slots_step {k : TaskManager} {ev : Event} (h : Slots k) (he : Enabled k ev) :
    Slots (DoHandleInterrupt k ev).1 := by
  cases hcall : scheduleCall k ev with
  | some s =>
    obtain ⟨k₁, c⟩ := s
    rw [(newFails_cases he hcall).2.1]
    exact (call_slots h he hcall).schedule c
  | none => exact (quiet_handled he hcall).slots h

theorem slots_reachable {k : TaskManager} (hk : taskSystem.Reachable k) : Slots k := by
  refine hk.invariant (fun k h0 => ?_) fun k ev k' h hst => ?_
  · obtain ⟨_, _, hsetup⟩ := h0
    exact setup_slots hsetup
  · obtain ⟨he, rfl⟩ := hst
    exact slots_step h he

theorem table_run {k₀ k : TaskManager} {evs : List Event} (h0 : taskSystem.init k₀)
    (hrun : (taskSystem.restrict KeepsInOrder).Exec k₀ evs k) : Table k₀.numTasks k := by
  obtain ⟨objects, added, hsetup⟩ := h0
  refine hrun.invariant (fun k ev k' h hst => ?_) (setup_table hsetup)
  obtain ⟨hkeeps, he, rfl⟩ := hst
  exact table_step h he hkeeps

/-- What the table of a run from `k₀` is like when it is in order: the table and the selection are in
    bounds, pids are distinct, `getTaskIndex` finds the one slot with a pid or answers -1 when there
    is none, a WAITING task awaits another slot, and the parent of a task that `k₀` did not have sits
    in a smaller slot. -/
structure InOrder (k₀ k : TaskManager) : Prop where
  size : k.numTasks ≤ 256
  current : k.currentTask = -1 ∨ ∃ i < k.numTasks, k.currentTask = (i : Int)
  pids : ∀ i < k.numTasks, ∀ j < k.numTasks, (k.tasks i).pid = (k.tasks j).pid → i = j
  lookup : ∀ pid, (∃ i < k.numTasks, (k.tasks i).pid = pid ∧ k.getTaskIndex pid = i
      ∧ ∀ j < k.numTasks, (k.tasks j).pid = pid → j = i)
    ∨ k.getTaskIndex pid = minusOne ∧ ∀ i < k.numTasks, (k.tasks i).pid ≠ pid
  awaited : ∀ i < k.numTasks, (k.tasks i).taskState = .WAITING →
    ∃ j < k.numTasks, j ≠ i ∧ (k.tasks j).pid = (k.tasks i).waitPid
  parents : ∀ i, k₀.numTasks ≤ i → i < k.numTasks → ∃ j < i, (k.tasks i).ppid = (k.tasks j).pid

/-- **The task table is in order** in every state of a run that starts from the registered tasks
    `k₀`, if its failed `new`s spare the records and its children get pids that are not in use. -/
theorem task_table_in_order {k₀ k : TaskManager} {evs : List Event} (h0 : taskSystem.init k₀)
    (hrun : (taskSystem.restrict KeepsInOrder).Exec k₀ evs k) : InOrder k₀ k := by
  have h := table_run h0 hrun
  refine ⟨h.le, ?_, h.distinct, fun pid => ?_, h.waits, h.parent⟩
  · rcases lt_or_ge k.currentTask 0 with hneg | hcur
    · exact .inl (by have := h.lo; omega)
    · exact .inr ⟨k.cur, cur_lt h.toSlots hcur, (cur_cast hcur).symm⟩
  · rcases getTaskIndex_cases k pid with ⟨i, hi, hidx⟩ | hnone
    · refine .inl ⟨i, hi.1, hi.2.1, hidx, fun j hj hjp => ?_⟩
      exact h.distinct j hj i hi.1 (hjp.trans hi.2.1.symm)
    · exact .inr hnone

/-- Three tasks, of which the last waits for the second, and a failed fork of the init task. -/
def waitsAndFails : List Event :=
  births ++ [syscall 0x500F00 7 1 none, syscall 0x200F00 2 0 none]

theorem bootOver_setup (record : Nat) : taskSystem.init (bootOver record) :=
  boot_setup _ _ _ _ (by decide)

theorem task_table_in_order_family :
    InOrder (bootOver 0x200000) (after (bootOver 0x200000) waitsAndFails)
      ∧ (after (bootOver 0x200000) waitsAndFails).numTasks = 3 := by
  refine ⟨task_table_in_order (bootOver_setup _) (exec_after (S := taskSystem) rfl
    (by decide +kernel : Follows KeepsInOrder (bootOver 0x200000) waitsAndFails)), ?_⟩
  decide +kernel

/-! ## §5. The counter comes round. -/

/-- The init task of `bootOver 0x200000` is running, alone in the table, and the counter is `c`. -/
structure Alone (c : Nat) (k : TaskManager) : Prop where
  run : ∃ evs, taskSystem.Exec (bootOver 0x200000) evs k
  numTasks : k.numTasks = 1
  current : k.currentTask = 0
  record : fixed (k.tasks 0) = (0x200000, 0, minusOne, 0x1000)
  ready : (k.tasks 0).taskState = .READY
  counter : k.processCounter = c

section Alone

variable {c : Nat} {k : TaskManager} {alloc : Option Nat}

theorem Alone.cur (h : Alone c k) : k.cur = 0 := congrArg Int.toNat h.current

/-- A fork of the init task, interrupted in its stack. -/
def initForks (alloc : Option Nat) : Event := syscall 0x200F00 2 0 alloc

theorem initForks_calls (alloc : Option Nat) : CallsFork (initForks alloc) := ⟨rfl, rfl⟩

/-- Nothing but memory is missing for it. -/
theorem Alone.canFork (alloc : Option Nat) (h : Alone c k) :
    CanFork { k with mem := (initForks alloc).mem } (initForks alloc).esp := by
  have hgdt : (k.tasks 0).gdt = 0x1000 := congrArg (fun t => t.2.2.2) h.record
  refine ⟨?_, ?_, ?_⟩
  · show k.numTasks < 256
    rw [h.numTasks]
    decide
  · show (k.tasks k.cur).gdt ≠ 0
    rw [h.cur, hgdt]
    decide
  · show getReg (syscall 0x200F00 2 0 none).mem 0x200F00 .eip ≠ 0
    decide

theorem Alone.enabled (h : Alone c k) : Enabled k (initForks alloc) := fun _ => h.current.ge

/-- A fork that fails takes a pid. -/
theorem Alone.fails (h : Alone c k) :
    Alone (add32 c 1) (DoHandleInterrupt k (initForks none)).1 := by
  obtain ⟨evs, hrun⟩ := h.run
  obtain ⟨hcall, heq⟩ := scheduleCall_fork (k := k) (initForks_calls none)
  obtain ⟨hn, hcur, hcount, htasks⟩ := forked_fails ⟨initForks_calls none, h.canFork none, rfl⟩
  have hslots : Slots (forked k (initForks none)) :=
    call_slots (slots_reachable (hrun.reachable (.start (bootOver_setup _)))) h.enabled hcall
  -- the record of the init task is apart from the object at null
  have hclear : (k.tasks 0).ClearOfNull := by
    have hstack : (k.tasks 0).stack = 0x200000 := congrArg Prod.fst h.record
    unfold Task.ClearOfNull
    rw [hstack]
    decide
  have htask := htasks 0 (by rw [h.numTasks]; decide)
  rw [Task.afterNull_of_clear hclear] at htask
  have hstep : taskSystem.step k (initForks none) (DoHandleInterrupt k (initForks none)).1 :=
    ⟨h.enabled, rfl⟩
  -- slot 0 is READY and the whole table, so `Schedule` selects it again
  have hsel : ((forked k (initForks none)).Schedule (initForks none).esp).1.currentTask = 0
      ∧ (((forked k (initForks none)).Schedule (initForks none).esp).1.tasks 0).taskState
        = .READY := by
    rcases schedule_cases hslots (initForks none).esp with ⟨d, i, w, hfirst, hsched⟩ | ⟨hnone, _⟩
    · have hi := hfirst.lt
      rw [hn, h.numTasks] at hi
      obtain rfl : i = 0 := by omega
      rw [hsched]
      exact ⟨rfl, select_self ..⟩
    · refine absurd ⟨?_, .inl ?_⟩ (hnone 0)
      · rw [hn, h.numTasks]
        decide
      · rw [htask, h.ready]
  refine ⟨⟨evs ++ [initForks none], hrun.append (.cons hstep (.nil _))⟩, ?_, ?_, ?_, ?_, ?_⟩ <;>
    rw [heq]
  · rw [schedule_numTasks hslots, hn, h.numTasks]
  · exact hsel.1
  · rw [schedule_fixed hslots, htask, h.record]
  · exact hsel.2
  · rw [schedule_processCounter hslots, hcount, h.counter]

end Alone

theorem alone_first : Alone 1 (after (bootOver 0x200000) [tick 0x9000]) where
  run := ⟨_, (exec_after (S := taskSystem) rfl
    (by decide +kernel : Follows KeepsInOrder (bootOver 0x200000) [tick 0x9000])).of_restrict⟩
  numTasks := by decide +kernel
  current := by decide +kernel
  record := by decide +kernel
  ready := by decide +kernel
  counter := by decide +kernel

/-- **The counter comes round**: failed forks take one pid after the other, modulo 2^32. -/
theorem counter_comes_round (n : Nat) : ∃ k, Alone ((1 + n) % 2 ^ 32) k := by
  induction n with
  | zero => exact ⟨_, alone_first⟩
  | succ n ih =>
    obtain ⟨k, hk⟩ := ih
    have hnext := hk.fails
    unfold add32 at hnext
    rw [Nat.mod_add_mod] at hnext
    exact ⟨_, hnext⟩

/-- The child of a fork after 2^32 - 1 failed ones has the pid of the init task. -/
theorem pid_taken_twice : ¬ ∀ k₀ k evs, taskSystem.init k₀ → taskSystem.Exec k₀ evs k →
    InOrder k₀ k := by
  intro hclaim
  obtain ⟨k, hk⟩ := counter_comes_round (2 ^ 32 - 1)
  obtain ⟨evs, hrun⟩ := hk.run
  obtain ⟨hcall, heq⟩ := scheduleCall_fork (k := k) (initForks_calls (some 0x400000))
  have hslots := call_slots (slots_reachable (hrun.reachable (.start (bootOver_setup _))))
    hk.enabled hcall
  have hstep : taskSystem.step k (initForks (some 0x400000))
      (DoHandleInterrupt k (initForks (some 0x400000))).1 := ⟨hk.enabled, rfl⟩
  have horder := hclaim _ _ _ (bootOver_setup _) (hrun.append (.cons hstep (.nil _)))
  obtain ⟨hn, hchild, _, hothers⟩ := forked_child (hk.canFork _) (a := 0x400000) rfl
  rw [hk.numTasks] at hn hchild hothers
  -- both slots have the pid 0
  have hpid : ∀ i, (((forked k (initForks (some 0x400000))).Schedule
      (initForks (some 0x400000)).esp).1.tasks i).pid
        = ((forked k (initForks (some 0x400000))).tasks i).pid := fun i =>
    congrArg (fun t => t.2.1) (schedule_fixed hslots _ i)
  have hinit : (k.tasks 0).pid = 0 := congrArg (fun t => t.2.1) hk.record
  have hsame := horder.pids 0 ?_ 1 ?_ ?_
  · exact absurd hsame (by decide)
  · rw [heq, schedule_numTasks hslots, hn]
    decide
  · rw [heq, schedule_numTasks hslots, hn]
    decide
  · rw [heq, hpid, hpid, hothers 0 (by decide), hchild, hinit]
    exact hk.counter.symm

end SystemOS.Kernel.TaskTable
