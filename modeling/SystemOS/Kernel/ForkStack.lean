/-
  SystemOS.Kernel.ForkStack — whose stack a forked child runs on.

  `forkTask` copies the stack of the caller byte by byte, puts the frame of the child at the same
  offset and shifts the saved `esp`.  The saved `ebp` and the frame pointers that it leads to are
  copied as they are.

  Main results:
    * `child_word`       — a word of the child's stack is the caller's word, but for `esp` and `ecx`
      of the frame.
    * `child_esp`        — the saved `esp` is shifted.
    * `ownStack_iff`     — the child runs on its own stack only exactly when there is no child.
-/
import SystemOS.Kernel.ForkCall

namespace SystemOS.Kernel.ForkStack

open SystemOS.Lib.ByteMemory
open SystemOS.Kernel.Multitasking SystemOS.Kernel.Multitasking.TaskManager
open SystemOS.Kernel.ScheduleCall SystemOS.Kernel.SchedulerRuns SystemOS.Kernel.Contexts
open SystemOS.Kernel.TaskTable SystemOS.Kernel.ForkCall

/-! ## §1. Addresses in a stack. -/

/-- The address `p` of the stack at `s`, moved to the stack at `a`. -/
def relocate (s a p : Nat) : Nat := add32 a (sub32 p s)

/-- `p` points into the stack at `s`. -/
def PointsInto (s p : Nat) : Prop := s ≤ p ∧ p < s + stackSize

/-- The chain of frame pointers from `ebp` on, as long as the words lie in the stack at `s`. -/
inductive OnChain (m : Mem) (s ebp : Nat) : Nat → Prop
  | base : OnChain m s ebp ebp
  | next {p : Nat} : OnChain m s ebp p → s ≤ p → p + 4 ≤ s + stackSize →
      OnChain m s ebp (readWord m p)

/-- The interrupted frame at `c` lies in the stack of the current task, and its `ebp` points into
    this stack. -/
structure OnStack (k : TaskManager) (c : Nat) : Prop where
  lo : k.current.stack ≤ c
  hi : c + sizeofCPUState ≤ k.current.stack + stackSize
  ebp : PointsInto k.current.stack (getReg k.mem c .ebp)

/-- The interrupted frame at `c` lies in the stack of the current task. -/
structure InStack (k : TaskManager) (c : Nat) : Prop where
  lo : k.current.stack ≤ c
  hi : c + sizeofCPUState ≤ k.current.stack + stackSize

theorem OnStack.inStack {k : TaskManager} {c : Nat} (h : OnStack k c) : InStack k c := ⟨h.lo, h.hi⟩

/-- The child in the table `k'`, whose stack is at `a`, runs on this stack only. -/
structure OwnStack (k k' : TaskManager) (c a : Nat) : Prop where
  frame : (k'.tasks k.numTasks).cpustate = relocate k.current.stack a c
  esp : getReg k'.mem (k'.tasks k.numTasks).cpustate .esp
    = relocate k.current.stack a (getReg k.mem c .esp)
  ebp : getReg k'.mem (k'.tasks k.numTasks).cpustate .ebp
    = relocate k.current.stack a (getReg k.mem c .ebp)
  chain : ∀ p, OnChain k.mem k.current.stack (getReg k.mem c .ebp) p →
    k.current.stack ≤ p → p + 4 ≤ k.current.stack + stackSize →
    PointsInto k.current.stack (readWord k.mem p) →
    readWord k'.mem (relocate k.current.stack a p) = relocate k.current.stack a (readWord k.mem p)

variable {k : TaskManager} {c a : Nat}

theorem relocate_eq {s p : Nat} (hp : s ≤ p) (hp' : p < s + stackSize) (hs : s + stackSize ≤ 2 ^ 32)
    (ha : a + stackSize ≤ 2 ^ 32) : relocate s a p = a + (p - s) := by
  unfold relocate
  rw [sub32_eq hp (by omega), add32_eq (by omega)]

/-! ## §2. The memory that `forkTask` leaves. -/

theorem copyStack_of_out {m : Mem} {src dst n x : Nat} (hdst : dst + n ≤ 2 ^ 32)
    (h : x < dst ∨ dst + n ≤ x) : copyStack m src dst n x = m x := by
  induction n with
  | zero => rfl
  | succ n ih =>
    unfold copyStack
    simp only
    rw [add32_eq (by omega), writeByte_of_ne _ _ (by omega)]
    exact ih (by omega) (by omega)

/-- The bytes are copied where the two stacks are apart. -/
theorem copyStack_at {m : Mem} {src dst n i : Nat} (hsrc : src + n ≤ 2 ^ 32)
    (hdst : dst + n ≤ 2 ^ 32) (h : src + n ≤ dst ∨ dst + n ≤ src) (hi : i < n) :
    copyStack m src dst n (dst + i) = m (src + i) := by
  induction n with
  | zero => omega
  | succ n ih =>
    unfold copyStack
    simp only
    rw [add32_eq (by omega), add32_eq (by omega)]
    by_cases hlast : i = n
    · subst hlast
      rw [writeByte_self]
      exact copyStack_of_out (by omega) (by omega)
    · rw [writeByte_of_ne _ _ (by omega)]
      exact ih (by omega) (by omega) (by omega) (by omega)

/-- The constructor writes the frame at the top of the new stack only. -/
theorem construct_of_out {m : Mem} {counter gdt entrypoint x : Nat} (heip : entrypoint ≠ 0)
    (ha : a + stackSize ≤ 2 ^ 32) (hx : x < a + 4044 ∨ a + stackSize ≤ x) :
    (Task.construct m counter a gdt entrypoint).1 x = m x := by
  unfold stackSize at *
  have hc : sub32 (add32 a stackSize) sizeofCPUState < 2 ^ 32 := Nat.mod_lt _ (by omega)
  have hframe : ∀ (m : Mem) (r : Reg) (v : Nat),
      setReg m (sub32 (add32 a stackSize) sizeofCPUState) r v x = m x := by
    intro m r v
    apply writeWord_of_out
    unfold add32 sub32 stackSize sizeofCPUState
    cases r <;> simp only [Reg.offset] <;> omega
  unfold Task.construct
  simp only [if_pos heip, hframe]

/-- Writing `esp` and `ecx` of the frame at `f` changes no other byte. -/
theorem setEspEcx_of_out (m : Mem) (v w : Nat) {f x : Nat} (hf : f + 48 ≤ 2 ^ 32)
    (hesp : x < f + 44 ∨ f + 48 ≤ x) (hecx : x < f + 8 ∨ f + 12 ≤ x) :
    setReg (setReg m f .esp v) f .ecx w x = m x := by
  unfold setReg
  simp only [Reg.offset]
  rw [add32_eq (by omega), add32_eq (by omega), writeWord_of_out _ _ (by omega),
    writeWord_of_out _ _ (by omega)]

section Copied

variable (hon : InStack k c) (heip : getReg k.mem c .eip ≠ 0)
  (ha : a + sizeofTask ≤ 2 ^ 32) (hs : k.current.stack + sizeofTask ≤ 2 ^ 32)
  (hapart : a + sizeofTask ≤ k.current.stack ∨ k.current.stack + sizeofTask ≤ a)

include hon ha hs

/-- The frame of the child is at the offset of the caller's frame. -/
theorem childOf_cpustate : (childOf k c a).cpustate = a + (c - k.current.stack) := by
  have h1 := hon.lo
  have h2 := hon.hi
  unfold sizeofTask sizeofCPUState at *
  exact relocate_eq h1 (by omega) (by unfold stackSize; omega) (by unfold stackSize; omega)

include heip hapart

/-- **A byte of the child's stack** is the byte of the caller's stack, unless it belongs to `ecx` or
    `esp` of the frame. -/
theorem child_byte {x : Nat} (hx : k.current.stack ≤ x) (hx' : x < k.current.stack + stackSize)
    (hecx : x < c + 8 ∨ c + 12 ≤ x) (hesp : x < c + 44 ∨ c + 48 ≤ x) :
    childMem k c a (a + (x - k.current.stack)) = k.mem x := by
  have h1 := hon.lo
  have h2 := hon.hi
  have hc := childOf_cpustate hon ha hs
  unfold sizeofTask at *
  unfold sizeofCPUState stackSize at *
  -- the two registers are written behind the copy
  unfold childMem
  rw [hc, setEspEcx_of_out _ _ _ (by omega) (by omega) (by omega), copyStack_at (by unfold stackSize; omega) (by unfold stackSize; omega)
      (by unfold stackSize; omega) (by unfold stackSize; omega),
    construct_of_out heip (by unfold stackSize; omega) (by unfold stackSize; omega)]
  congr 1
  omega

/-- **A word of the child's stack** is the word of the caller's stack, unless it is `ecx` or `esp`
    of the frame. -/
theorem child_word {p : Nat} (hp : k.current.stack ≤ p) (hp' : p + 4 ≤ k.current.stack + stackSize)
    (hecx : p + 4 ≤ c + 8 ∨ c + 12 ≤ p) (hesp : p + 4 ≤ c + 44 ∨ c + 48 ≤ p) :
    readWord (childMem k c a) (a + (p - k.current.stack)) = readWord k.mem p := by
  have hbyte : ∀ i < 4, childMem k c a (a + (p - k.current.stack) + i) = k.mem (p + i) := by
    intro i hi
    rw [← child_byte hon heip ha hs hapart (x := p + i) (by omega) (by omega) (by omega) (by omega)]
    congr 1
    omega
  unfold readWord
  rw [← hbyte 1 (by omega), ← hbyte 2 (by omega), ← hbyte 3 (by omega), ← Nat.add_zero p,
    ← hbyte 0 (by omega)]
  rfl

/-- Any other register of the child's frame is the caller's. -/
theorem child_reg {r : Reg} (hecx : r ≠ .ecx) (hesp : r ≠ .esp) :
    getReg (childMem k c a) (childOf k c a).cpustate r = getReg k.mem c r := by
  have h1 := hon.lo
  have h2 := hon.hi
  have hr : r.offset + 4 ≤ 8 ∨ 12 ≤ r.offset ∧ r.offset + 4 ≤ 44 ∨ r.offset = 48 := by
    cases r <;> simp [Reg.offset] at *
  rw [childOf_cpustate hon ha hs]
  unfold sizeofTask sizeofCPUState stackSize at *
  unfold getReg
  rw [add32_eq (by omega), add32_eq (by omega)]
  have hword := child_word hon heip ha hs hapart (p := c + r.offset) (by omega)
    (by unfold stackSize; omega) (by omega) (by omega)
  rw [← hword]
  congr 1
  omega

/-- The saved `esp` is shifted. -/
theorem child_esp : getReg (childMem k c a) (childOf k c a).cpustate .esp
    = relocate k.current.stack a (getReg k.mem c .esp) := by
  have h1 := hon.lo
  have h2 := hon.hi
  unfold sizeofTask sizeofCPUState stackSize at *
  have hesp : getReg (copyStack (Task.construct k.mem k.processCounter a k.current.gdt
      (getReg k.mem c .eip)).1 k.current.stack a stackSize) c .esp = getReg k.mem c .esp := by
    show readWord _ (add32 c 44) = readWord k.mem (add32 c 44)
    rw [show add32 c 44 = c + 44 from add32_eq (by omega)]
    apply readWord_congr
    intro x hx hx'
    rw [copyStack_of_out (by unfold stackSize; omega) (by unfold stackSize; omega),
      construct_of_out heip (by unfold stackSize; omega) (by unfold stackSize; omega)]
  unfold childMem
  simp only
  rw [getReg_setReg_of_ne _ _ _ (by decide), hesp]
  exact read_write_self _ _ (Nat.mod_lt _ (by omega))

end Copied

/-- The child's `ebp` is the caller's, and points into the caller's stack. -/
theorem child_not_own (hon : OnStack k c) (heip : getReg k.mem c .eip ≠ 0)
    (ha : a + sizeofTask ≤ 2 ^ 32) (hs : k.current.stack + sizeofTask ≤ 2 ^ 32)
    (hapart : a + sizeofTask ≤ k.current.stack ∨ k.current.stack + sizeofTask ≤ a) :
    ¬ OwnStack k (withChild k c a) c a := by
  intro hown
  have hebp := hown.ebp
  have hchild : (withChild k c a).tasks k.numTasks = childOf k c a := setTask_self _ _ _
  obtain ⟨hlo, hhi⟩ := hon.ebp
  rw [hchild] at hebp
  have hcopied : getReg (childMem k c a) (childOf k c a).cpustate .ebp = getReg k.mem c .ebp :=
    child_reg hon.inStack heip ha hs hapart (by decide) (by decide)
  unfold sizeofTask stackSize at *
  rw [relocate_eq hlo (by unfold stackSize; omega) (by unfold stackSize; omega)
    (by unfold stackSize; omega)] at hebp
  have : getReg k.mem c .ebp = a + (getReg k.mem c .ebp - k.current.stack) := hcopied.symm.trans hebp
  omega

/-! ## §3. The child of a fork. -/

/-- A child that the fork makes runs on its own stack only. -/
def ChildOnOwnStack (k : TaskManager) (c : Nat) (alloc : Option Nat) : Prop :=
  ∀ a, alloc = some a → k.numTasks < (k.forkTask c alloc).1.numTasks →
    OwnStack k (k.forkTask c alloc).1 c a

/-- **A child runs on its own stack only exactly when there is none**: the table is full, or the
    caller has no descriptor table or no entry point, or there is no memory. -/
theorem ownStack_iff (k : TaskManager) (c : Nat) (alloc : Option Nat) (hon : OnStack k c)
    (hfresh : FreshObject k alloc) :
    ChildOnOwnStack k c alloc ↔ ¬ (CanFork k c ∧ alloc.isSome) := by
  constructor
  · rintro hown ⟨hcan, hsome⟩
    obtain ⟨a, rfl⟩ := Option.isSome_iff_exists.mp hsome
    obtain ⟨ha, hs, hapart⟩ := hfresh a rfl
    have hchild := hown a rfl (by rw [forkTask_eq hcan]; exact Nat.lt_succ_self _)
    rw [forkTask_eq hcan] at hchild
    exact child_not_own hon hcan.2.2 ha hs hapart hchild
  · intro hnone a _ hgrown
    -- without a child the table does not grow
    by_cases hlt : k.numTasks < 256
    · obtain ⟨k', heq, hn, _⟩ := forkTask_fails hlt hnone
      rw [heq] at hgrown
      exact absurd hn (Nat.ne_of_gt hgrown)
    · rw [forkTask_full (Nat.not_lt.mp hlt)] at hgrown
      exact absurd hgrown (lt_irrefl _)

/-- The running init task of 2 MiB, interrupted at the top of its stack with `ebp` in the stack. -/
def interruptedInit : TaskManager :=
  { runningInit with
      mem := writeWord (forkFrame 0x200FC0) (0x200FC0 + 24) 0x200FF8 }

theorem interruptedInit_onStack : OnStack interruptedInit 0x200FC0 := by
  have hebp : getReg interruptedInit.mem 0x200FC0 .ebp = 0x200FF8 :=
    read_write_self _ _ (by omega)
  refine ⟨by decide, by decide, ?_⟩
  rw [hebp]
  exact ⟨by decide, by decide⟩

theorem interruptedInit_fresh : FreshObject interruptedInit (some 0x400000) := by
  intro a ha
  obtain rfl : 0x400000 = a := Option.some.inj ha
  exact ⟨by decide, by decide, by decide⟩

theorem ownStack_iff_init : ChildOnOwnStack interruptedInit 0x200FC0 (some 0x400000) ↔
    ¬ (CanFork interruptedInit 0x200FC0 ∧ (some 0x400000).isSome) :=
  ownStack_iff _ _ _ interruptedInit_onStack interruptedInit_fresh

/-- The child of the init task uses the init task's stack through `ebp`. -/
theorem child_uses_parent_stack : ¬ ∀ (k : TaskManager) (c : Nat) (alloc : Option Nat),
    OnStack k c → FreshObject k alloc → ChildOnOwnStack k c alloc := by
  intro hclaim
  have hon := interruptedInit_onStack
  have heip : getReg interruptedInit.mem 0x200FC0 .eip = 0x100000 := by
    show readWord (writeWord (forkFrame 0x200FC0) (0x200FC0 + 24) 0x200FF8) (0x200FC0 + 32) = _
    rw [read_write_apart _ _ (by omega)]
    exact read_write_self _ _ (by omega)
  have hcan : CanFork interruptedInit 0x200FC0 :=
    ⟨by decide, by decide, by rw [heip]; decide⟩
  have hown := hclaim _ _ _ hon interruptedInit_fresh 0x400000 rfl
    (by rw [forkTask_eq hcan]; exact Nat.lt_succ_self _)
  rw [forkTask_eq hcan] at hown
  obtain ⟨ha, hs, hapart⟩ := interruptedInit_fresh 0x400000 rfl
  exact child_not_own hon hcan.2.2 ha hs hapart hown

end SystemOS.Kernel.ForkStack
