/-
  SystemOS.Kernel.GdtRuns — where the descriptor table of a task comes from.

  `forkTask` hands the gdt pointer of the caller down to the child, and `AddTask` copies the fields
  of `init_task` into a record that nothing allocated, all but this pointer.

  Main results:
    * `inherited_step`   — one interrupt hands the pointer on as it finds it.
    * `kernelTable_iff`  — every task of every run has the kernel's table exactly when the record
      of slot 0 happened to hold it before `AddTask`, as long as failed `new`s spare the records.
-/
import SystemOS.Kernel.SchedulerRuns

namespace SystemOS.Kernel.GdtRuns

open SystemOS.Lib.ByteMemory SystemOS.Lib.Transition
open SystemOS.Kernel.Multitasking SystemOS.Kernel.Multitasking.TaskManager
open SystemOS.Kernel.ScheduleCall SystemOS.Kernel.SchedulerRuns

/-- The kernel booted with `init_task` at `stack` and its table at `gdt`, over slots that hold
    `tasks`. -/
def bootSystem (tasks : Nat → Task) (m : Mem) (stack gdt entrypoint : Nat) :
    System TaskManager Event where
  init k := k = boot tasks m stack gdt entrypoint
  step := kernelSystem.step

/-- Operator new answers an object that is not at address 0, or fails and spares the records. -/
def AllocatesApart (k : TaskManager) (ev : Event) : Prop :=
  ev.alloc ≠ some 0 ∧ SparesTasks k ev

instance (k : TaskManager) (ev : Event) : Decidable (AllocatesApart k ev) :=
  inferInstanceAs (Decidable (_ ∧ _))

/-- Every task is a record with the table at `gdt`, the running one hands this table to `new Task`
    and takes the code segment selector of `execve` from it, and a fork that finds a free slot, an
    entry point and memory does not fail. -/
structure KernelTable (gdt : Nat) (k : TaskManager) : Prop where
  record : ∀ i < k.numTasks, (k.tasks i).stack ≠ 0
  table : ∀ i < k.numTasks, (k.tasks i).gdt = gdt
  caller : 0 ≤ k.currentTask → k.current.gdt = gdt ∧ k.current.gdt ≠ 0
  forks : 0 ≤ k.currentTask → ∀ cpustate a, k.numTasks < 256 → getReg k.mem cpustate .eip ≠ 0 →
    k.forkTask cpustate (some a) = (withChild k cpustate a, k.processCounter)

/-- The records and their tables, without what follows from them. -/
def Inherited (gdt : Nat) (k : TaskManager) : Prop :=
  ∀ i < k.numTasks, (k.tasks i).stack ≠ 0 ∧ (k.tasks i).gdt = gdt

variable {gdt : Nat} {k : TaskManager}

theorem Inherited.kernelTable (h : Inherited gdt k) (hk : Shape k) (hgdt : gdt ≠ 0) :
    KernelTable gdt k := by
  have hcur := (h k.cur hk.cur_lt).2
  have hnonzero : k.current.gdt ≠ 0 := by
    show (k.tasks k.cur).gdt ≠ 0
    rw [hcur]
    exact hgdt
  exact ⟨fun i hi => (h i hi).1, fun i hi => (h i hi).2, fun _ => ⟨hcur, hnonzero⟩,
    fun _ c a hlt heip => forkTask_eq ⟨hlt, hnonzero, heip⟩ a⟩

/-- Whatever keeps `fixed` keeps the records and their tables. -/
theorem Inherited.of_fixed {k' : TaskManager} (h : Inherited gdt k) (hn : k'.numTasks = k.numTasks)
    (hfixed : ∀ i < k.numTasks, fixed (k'.tasks i) = fixed (k.tasks i)) : Inherited gdt k' := by
  intro i hi
  rw [hn] at hi
  have heq := hfixed i hi
  obtain ⟨hstack, htable⟩ := h i hi
  simp only [fixed, Prod.mk.injEq] at heq
  exact ⟨by rw [heq.1]; exact hstack, heq.2.2.2.trans htable⟩

/-- The table with which `Schedule` is called: the tasks of before, and perhaps a child. -/
theorem Inherited.call {k₁ : TaskManager} {ev : Event} {c : Nat} (h : Inherited gdt k)
    (hk : Shape k) (he : Enabled k ev) (halloc : AllocatesApart k ev)
    (hcall : scheduleCall k ev = some (k₁, c)) : Inherited gdt k₁ := by
  obtain ⟨_, _, hh⟩ := scheduleCall_cases he halloc.2 hcall
  rcases Nat.eq_or_lt_of_le hh.numTasks_le with hn | hgrown
  · exact h.of_fixed hn.symm fun i hi => hh.fixed_eq hi
  · obtain ⟨_, a, ha, hn, hchild⟩ := scheduleCall_record hcall hgrown
    intro i hi
    rcases Nat.lt_or_ge i k.numTasks with hlt | hge
    · have heq := hh.fixed_eq hlt
      simp only [fixed, Prod.mk.injEq] at heq
      obtain ⟨hstack, htable⟩ := h i hlt
      exact ⟨by rw [heq.1]; exact hstack, heq.2.2.2.trans htable⟩
    · -- the child has the table of the caller
      have : i = k.numTasks := by omega
      subst this
      rw [hchild]
      refine ⟨fun hzero => halloc.1 ?_, (h k.cur hk.cur_lt).2⟩
      rw [ha]
      exact congrArg some hzero

theorem inherited_step {k' : TaskManager} {ev : Event} (h : Inherited gdt k) (hk : Shape k)
    (halloc : AllocatesApart k ev) (hst : kernelSystem.step k ev k') : Inherited gdt k' := by
  obtain ⟨he, rfl⟩ := hst
  rcases interrupt_cases he halloc.2 with ⟨k₁, hcall, heq, hh⟩ | ⟨hcall, hh⟩
  · have hslots := (hh.shape hk).toSlots
    rw [heq]
    exact (h.call hk he halloc hcall).of_fixed (schedule_numTasks hslots ev.esp)
      fun i _ => schedule_fixed hslots ev.esp i
  · have hn : (DoHandleInterrupt k ev).1.numTasks = k.numTasks := by
      rcases quiet_cases he hcall with ⟨m, heq⟩ | ⟨_, m, c, heq⟩
      · rw [heq]
      · rw [heq]
        rfl
    exact h.of_fixed hn fun i hi => hh.fixed_eq hi

/-- `AddTask` leaves the address and the table pointer of the record it fills. -/
theorem AddTask_slot {k : TaskManager} (hk : k.numTasks < 256) (task : Multitasking.Task) :
    ((k.AddTask task).1.tasks k.numTasks).stack = (k.tasks k.numTasks).stack
      ∧ ((k.AddTask task).1.tasks k.numTasks).gdt = (k.tasks k.numTasks).gdt := by
  unfold AddTask
  rw [if_neg (Nat.not_le.mpr hk)]
  show ((k.setTask k.numTasks _).tasks k.numTasks).stack = _
    ∧ ((k.setTask k.numTasks _).tasks k.numTasks).gdt = _
  rw [setTask_self]
  exact ⟨rfl, rfl⟩

theorem boot_slot (tasks : Nat → Task) (m : Mem) (stack gdt entrypoint : Nat) :
    ((boot tasks m stack gdt entrypoint).tasks 0).stack = (tasks 0).stack
      ∧ ((boot tasks m stack gdt entrypoint).tasks 0).gdt = (tasks 0).gdt := by
  unfold boot
  exact AddTask_slot (by decide : 0 < 256) _

/-- **The table of every task.**  Over any contents of the slots, every task in every state of every
    run in which failed `new`s spare the records is a record with the table that `init_task` was
    constructed with, and forks do not fail for lack of one, exactly when slot 0 pointed to a record
    that held this table already. -/
theorem kernelTable_iff (tasks : Nat → Task) (m : Mem) (stack entrypoint : Nat) (hgdt : gdt ≠ 0) :
    (∀ k, ((bootSystem tasks m stack gdt entrypoint).restrict AllocatesApart).Reachable k →
        KernelTable gdt k)
      ↔ (tasks 0).stack ≠ 0 ∧ (tasks 0).gdt = gdt := by
  obtain ⟨hstack, htable'⟩ := boot_slot tasks m stack gdt entrypoint
  constructor
  · intro h
    have hboot := h _ (.start rfl)
    have hrecord := hboot.record 0 Nat.zero_lt_one
    have htable := hboot.table 0 Nat.zero_lt_one
    rw [hstack] at hrecord
    rw [htable'] at htable
    exact ⟨hrecord, htable⟩
  · rintro ⟨hrecord, htable⟩ k hk
    have hinv : Shape k ∧ Inherited gdt k := by
      refine hk.invariant (I := fun k => Shape k ∧ Inherited gdt k) ?_ ?_
      · rintro k rfl
        refine ⟨(boot_inv tasks m stack gdt entrypoint).toShape, fun i hi => ?_⟩
        have : i = 0 := Nat.lt_one_iff.mp hi
        subst this
        rw [hstack, htable']
        exact ⟨hrecord, htable⟩
      · intro k ev k' ⟨hshape, hinh⟩ ⟨halloc, hst⟩
        have hnext := inherited_step hinh hshape halloc hst
        obtain ⟨he, rfl⟩ := hst
        exact ⟨interrupt_shape hshape he, hnext⟩
    exact hinv.2.kernelTable hinv.1 hgdt

/-- Slot 0 holds the table already: the three tasks of the family have it. -/
theorem kernelTable_iff_family : KernelTable 0x1000 family := by
  have hrun : ((bootSystem (fun _ => ⟨0x200000, 0, .READY, 0, 0, 0x1000, 0⟩) (fun _ => 0) 0x300000
      0x1000 0x100000).restrict AllocatesApart).Exec (bootOver 0x200000) births family :=
    exec_after (S := bootSystem _ _ _ _ _) rfl
      (by decide +kernel : Follows AllocatesApart (bootOver 0x200000) births)
  exact (kernelTable_iff _ _ _ _ (by decide)).mpr ⟨by decide, rfl⟩ family (hrun.reachable (.start rfl))

/-- Slots that hold zeros: the record of the init task lies at address 0 and has no table. -/
theorem zero_slots_miss : ¬ ∀ (tasks : Nat → Task) (m : Mem) (stack gdt entrypoint : Nat), gdt ≠ 0 →
    ∀ k, (bootSystem tasks m stack gdt entrypoint).Reachable k → KernelTable gdt k := by
  intro hclaim
  have h := hclaim (fun _ => ⟨0, 0, .READY, 0, 0, 0, 0⟩) (fun _ => 0) 0x300000 0x1000 0x100000
    (by decide) _ (.start rfl)
  exact h.record 0 Nat.zero_lt_one rfl

end SystemOS.Kernel.GdtRuns
