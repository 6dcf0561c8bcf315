/-
  SystemOS.Kernel.TaskHeap — tasks in the memory of the heap.

  `new Task` asks the memory manager for the object of a child, so the headers of the chunk list, the
  stacks of the tasks and the frames that interrupts push lie in one memory.  Between interrupts the
  code of the tasks allocates, frees what is not a task, and writes any block that is handed out,
  another task's stack included.  An interrupt may find its frame on the stack of any task; only a
  `fork` is called on the caller's own.  The call frames of the handlers, below the interrupted one,
  and the texts that they print on the screen count as writes of the interrupted code.

  Main results:
    * `sound_step`         — what one step keeps of the heap and of the objects of the tasks.
    * `tasks_apart`        — the objects of the tasks never overlap, and the chunk list stays whole,
      whether or not `new` finds memory.
    * `interrupt_confined` — an interrupt is one of the kernel's with a new object apart from all
      others, and writes what `Written` allows and headers only.
-/
import SystemOS.Kernel.HandlerMemory

namespace SystemOS.Kernel.TaskHeap

open SystemOS.Lib.ByteMemory SystemOS.Lib.Extent SystemOS.Lib.Transition
open SystemOS.Kernel.MemoryManager SystemOS.Kernel.HeapLayout SystemOS.Kernel.HeapRuns
open SystemOS.Kernel.Multitasking SystemOS.Kernel.Multitasking.TaskManager
open SystemOS.Kernel.ScheduleCall SystemOS.Kernel.SchedulerRuns SystemOS.Kernel.TaskTable
open SystemOS.Kernel.ForkCall SystemOS.Kernel.ForkStack SystemOS.Kernel.ForkFrame
open SystemOS.Kernel.HandlerMemory

/-! ## §1. Kernel and heap. -/

/-- The task manager with its memory, `first` of the memory manager, and the blocks handed out. -/
structure State where
  k : TaskManager
  first : Nat
  live : List (Nat × Nat)

def State.heap (s : State) : Heap := ⟨s.k.mem, s.first⟩

def State.heapState (s : State) : HeapState := ⟨s.heap, s.live⟩

/-- The memory of the kernel after a call of the memory manager. -/
def State.withHeap (s : State) (h : Heap) (live : List (Nat × Nat)) : State :=
  ⟨{ s.k with mem := h.mem }, h.first, live⟩

/-- An interrupt, as far as it does not depend on the heap. -/
def State.event (s : State) (number esp : Nat) : Event := ⟨number, esp, s.k.mem, none⟩

inductive Act
  /-- The memory as the code of the tasks leaves it. -/
  | run (mem : Mem)
  | malloc (n : Nat)
  | free (p : Nat)
  | interrupt (number esp : Nat)

/-- The interrupt is a `fork` that gets to `new Task`. -/
def CallsNew (k : TaskManager) (ev : Event) : Prop := CallsFork ev ∧ CanFork k ev.esp

instance (k : TaskManager) (ev : Event) : Decidable (CallsNew k ev) := by
  unfold CallsNew CallsFork CanFork
  infer_instance

/-- One interrupt.  `operator new` calls `malloc`. -/
def State.interrupt (s : State) (number esp : Nat) : Option State :=
  if CallsNew s.k (s.event number esp) then
    (MemoryManager.malloc s.heap sizeofTask).map fun (p, h) =>
      ⟨(DoHandleInterrupt s.k ⟨number, esp, h.mem, if p = 0 then none else some p⟩).1, h.first,
        if p = 0 then s.live else (p, sizeofTask) :: s.live⟩
  else some { s with k := (DoHandleInterrupt s.k (s.event number esp)).1 }

/-- What an action does. -/
def State.after (s : State) : Act → Option State
  | .run mem => some { s with k := { s.k with mem := mem } }
  | .malloc n => (MemoryManager.malloc s.heap n).map fun (p, h) =>
      s.withHeap h (if p = 0 then s.live else (p, n) :: s.live)
  | .free p => some (s.withHeap (MemoryManager.free s.heap p) (s.live.filter fun q => q.1 ≠ p))
  | .interrupt number esp => s.interrupt number esp

/-- The interrupted frame lies on the stack of a task, for a `fork` on that of the caller. -/
structure OnStacks (k : TaskManager) (ev : Event) : Prop where
  some_stack : 0 ≤ k.currentTask → ∃ i < k.numTasks, (k.tasks i).stack ≤ ev.esp
    ∧ ev.esp + sizeofCPUState ≤ (k.tasks i).stack + stackSize
  fork : CallsFork ev → InStack k ev.esp

section System

variable (R : Region)

/-- The code of the tasks may write outside the heap and in the blocks handed out, but not the fields
    of a `Task`, which are in its record. -/
def MayWrite (s : State) (y : Nat) : Prop :=
  (y < R.start ∨ R.stop ≤ y ∨ ∃ q ∈ s.live, InBlock q y)
    ∧ ∀ i < s.k.numTasks, ¬ InBlock ((s.k.tasks i).stack + stackSize, sizeofTask - stackSize) y

/-- When an action may happen. -/
def Allowed (s : State) : Act → Prop
  | .run mem => ∀ y, ¬ MayWrite R s y → mem y = s.k.mem y
  | .malloc n => n < 2 ^ 32
  | .free p => (∃ n, (p, n) ∈ s.live) ∧ ∀ i < s.k.numTasks, (s.k.tasks i).stack ≠ p
  | .interrupt number esp => Enabled s.k (s.event number esp) ∧ OnStacks s.k (s.event number esp)

/-- The object of a task lies outside the heap. -/
def Outside (stack : Nat) : Prop := stack + sizeofTask ≤ R.start ∨ R.stop ≤ stack

/-- `kernelMain` when it has added the init task to the table.  The heap has been used before; it is
    above the object at null, and the objects of the init task are not from it. -/
def taskSystem : System State Act where
  init s := ∃ tasks stack gdt entrypoint hs, (heapSystem R).Reachable hs ∧ entrypoint ≠ 0
    ∧ sizeofTask ≤ R.start
    ∧ Outside R stack ∧ stack + sizeofTask ≤ 2 ^ 32
    ∧ Outside R (tasks 0).stack ∧ (tasks 0).stack + sizeofTask ≤ 2 ^ 32
    ∧ s = ⟨boot tasks hs.heap.mem stack gdt entrypoint, hs.heap.first, hs.live⟩
  step s a s' := Allowed R s a ∧ s.after a = some s'

end System

/-! ## §2. What the steps keep. -/

/-- The heap is whole, and every task but the first has its object in a block of its own. -/
structure Sound (R : Region) (s : State) : Prop where
  shape : Shape s.k
  heap : HeapInv R s.heapState
  null : sizeofTask ≤ R.start
  outside : Outside R (s.k.tasks 0).stack
  fits : (s.k.tasks 0).stack + sizeofTask ≤ 2 ^ 32
  objects : ∀ i < s.k.numTasks, i ≠ 0 → ((s.k.tasks i).stack, sizeofTask) ∈ s.live
  distinct : ∀ i < s.k.numTasks, ∀ j < s.k.numTasks, i ≠ 0 → j ≠ 0 → i ≠ j →
    (s.k.tasks i).stack ≠ (s.k.tasks j).stack

/-- What of the heap is handed out to nobody stays. -/
def SparesHeap (R : Region) (live : List (Nat × Nat)) (m m' : Mem) : Prop :=
  ∀ y, R.start ≤ y → y < R.stop → (∀ q ∈ live, ¬ InBlock q y) → m' y = m y

variable {R : Region} {s s' : State} {live : List (Nat × Nat)} {m m' : Mem} {first : Nat}

theorem layout_spared {bs : List Block} (hL : Layout R ⟨m, first⟩ bs)
    (hlive : ∀ q ∈ live, Backed R bs q) (hm : SparesHeap R live m m') :
    Layout R ⟨m', first⟩ bs := by
  refine ⟨hL.first, hL.cover, ?_, hL.separated⟩
  refine chain_congr (fun c hc y hy hy' => ?_) hL.chain
  obtain ⟨b, hb⟩ := mem_addrs_iff.mp hc
  have hbounds := lookup_bounds 16 hb
  have hcover := hL.cover
  refine hm y (by omega) (by omega) fun q hq hin => ?_
  have hapart := header_apart (hlive q hq) hc
  unfold InBlock at hin
  omega

theorem heapInv_spared (h : HeapInv R ⟨⟨m, first⟩, live⟩) (hm : SparesHeap R live m m') :
    HeapInv R ⟨⟨m', first⟩, live⟩ := by
  obtain ⟨bs, hL, hlive⟩ := h
  exact ⟨bs, layout_spared hL hlive hm, hlive⟩

theorem backed_inside {bs : List Block} {h : Heap} {q : Nat × Nat} (hL : Layout R h bs)
    (hq : Backed R bs q) : R.start ≤ q.1 ∧ q.1 + q.2 ≤ R.stop := by
  obtain ⟨x, b, hqx, hx, -, hsize⟩ := hq
  have hbounds := lookup_bounds 16 hx
  have hcover := hL.cover
  omega

theorem backed_apart {bs : List Block} {q r : Nat × Nat} (hq : Backed R bs q) (hr : Backed R bs r)
    (hne : q.1 ≠ r.1) : q.1 + q.2 ≤ r.1 ∨ r.1 + r.2 ≤ q.1 := by
  obtain ⟨x, b, hqx, hx, -, hsize⟩ := hq
  obtain ⟨y, c, hry, hy, -, hsize'⟩ := hr
  rcases Nat.lt_or_gt_of_ne (show x ≠ y by omega) with hlt | hgt
  · have := lookup_disjoint hx hy hlt
    omega
  · have := lookup_disjoint hy hx hgt
    omega

theorem Sound.fits_all (h : Sound R s) {i : Nat} (hi : i < s.k.numTasks) :
    (s.k.tasks i).stack + sizeofTask ≤ 2 ^ 32 := by
  by_cases hzero : i = 0
  · subst hzero
    exact h.fits
  · obtain ⟨bs, hL, hlive⟩ := h.heap
    have hinside := backed_inside hL (hlive _ (h.objects i hi hzero))
    have hbelow := R.below
    unfold Region.stop at hinside
    simp only at hinside
    omega

/-- **The objects of the tasks do not overlap.** -/
theorem Sound.apart (h : Sound R s) {i j : Nat} (hi : i < s.k.numTasks) (hj : j < s.k.numTasks)
    (hne : i ≠ j) : (s.k.tasks i).stack + sizeofTask ≤ (s.k.tasks j).stack
      ∨ (s.k.tasks j).stack + sizeofTask ≤ (s.k.tasks i).stack := by
  obtain ⟨bs, hL, hlive⟩ := h.heap
  have houtside := h.outside
  unfold Outside at houtside
  by_cases hzero : i = 0
  · subst hzero
    have hinside := backed_inside hL (hlive _ (h.objects j hj (by omega)))
    simp only at hinside
    omega
  · by_cases hzero' : j = 0
    · subst hzero'
      have hinside := backed_inside hL (hlive _ (h.objects i hi hzero))
      simp only at hinside
      omega
    · exact backed_apart (hlive _ (h.objects i hi hzero)) (hlive _ (h.objects j hj hzero'))
        (h.distinct i hi j hj hzero hzero' hne)

/-- A byte on the stack of a task is outside the heap or in a block that is handed out. -/
theorem Sound.stack_spared (hs : Sound R s) {i y : Nat} (hi : i < s.k.numTasks)
    (hy : InBlock ((s.k.tasks i).stack, stackSize) y) (hlo : R.start ≤ y) (hhi : y < R.stop) :
    ∃ q ∈ s.live, InBlock q y := by
  have hbytes := task_sizes
  unfold InBlock at hy ⊢
  by_cases hzero : i = 0
  · subst hzero
    have houtside := hs.outside
    unfold Outside at houtside
    omega
  · exact ⟨_, hs.objects i hi hzero, by omega, by show y < _ + sizeofTask; omega⟩

/-! ## §3. One interrupt. -/

/-- The event of an interrupt: what `malloc` has done to the heap, and what it has answered. -/
structure Handles (R : Region) (s s' : State) (number esp : Nat) (ev : Event) (bs : List Block) :
    Prop where
  vector : ev.interrupt = number
  pointer : ev.esp = esp
  kernel : s'.k = (DoHandleInterrupt s.k ev).1
  layout : Layout R ⟨ev.mem, s'.first⟩ bs
  backed : ∀ q ∈ s'.live, Backed R bs q
  headers : HeadersOnly (addrs 16 R.start bs) s.k.mem ev.mem
  answer : (ev.alloc = none ∧ ev.mem = s.k.mem ∧ s'.live = s.live) ∨ ∃ a, ev.alloc = some a ∧ a ≠ 0
    ∧ CallsNew s.k (s.event number esp)
    ∧ s'.live = (a, sizeofTask) :: s.live ∧ ∀ q ∈ s.live, q.1 ≠ a

variable {number esp : Nat} {ev : Event} {bs : List Block}

theorem handles_of_interrupt (hs : HeapInv R s.heapState)
    (h : s.interrupt number esp = some s') : ∃ ev bs, Handles R s s' number esp ev bs := by
  obtain ⟨bs, hL, hlive⟩ := hs
  unfold State.interrupt at h
  split at h
  · next hnew =>
    obtain ⟨⟨p, h'⟩, hm, rfl⟩ := Option.map_eq_some_iff.mp h
    rcases malloc_step hL hlive hm with ⟨rfl, rfl⟩ | ⟨bs', hne, hL', hH, hp, hold, _⟩
    · -- `malloc` has answered with a null pointer
      exact ⟨s.event number esp, bs, rfl, rfl, rfl, hL, hlive, fun _ _ => rfl, .inl ⟨rfl, rfl, rfl⟩⟩
    · refine ⟨⟨number, esp, h'.mem, some p⟩, bs', rfl, rfl, by simp [hne], hL', ?_, hH,
        .inr ⟨p, rfl, hne, hnew, by simp [hne], fun q hq => (hold q hq).1⟩⟩
      intro q hq
      simp only [if_neg hne, List.mem_cons] at hq
      rcases hq with rfl | hq
      · exact hp
      · exact (hold q hq).2
  · obtain rfl := Option.some.inj h
    exact ⟨s.event number esp, bs, rfl, rfl, rfl, hL, hlive, fun _ _ => rfl, .inl ⟨rfl, rfl, rfl⟩⟩

theorem Handles.live_mono (h : Handles R s s' number esp ev bs) {q : Nat × Nat} (hq : q ∈ s.live) :
    q ∈ s'.live := by
  rcases h.answer with ⟨_, _, heq⟩ | ⟨a, _, _, _, heq, _⟩
  · rwa [heq]
  · rw [heq]
    exact List.mem_cons_of_mem _ hq

/-- A new object is a block of its own. -/
theorem Handles.answered (h : Handles R s s' number esp ev bs) {a : Nat} (ha : ev.alloc = some a) :
    a ≠ 0 ∧ s'.live = (a, sizeofTask) :: s.live ∧ ∀ q ∈ s.live, q.1 ≠ a := by
  rcases h.answer with ⟨hnone, _⟩ | ⟨a', ha', hne, _, hlive, hold⟩
  · rw [hnone] at ha
    cases ha
  · obtain rfl : a' = a := Option.some.inj (ha'.symm.trans ha)
    exact ⟨hne, hlive, hold⟩

theorem Handles.object_live (h : Handles R s s' number esp ev bs) {a : Nat}
    (ha : ev.alloc = some a) : (a, sizeofTask) ∈ s'.live := by
  rw [(h.answered ha).2.1]
  exact List.mem_cons_self

theorem headers_inside {c : Nat} {hh : Heap} (hL : Layout R hh bs) (hc : c ∈ addrs 16 R.start bs) :
    R.start ≤ c ∧ c + 16 ≤ R.stop := by
  obtain ⟨b, hb⟩ := mem_addrs_iff.mp hc
  have hbounds := lookup_bounds 16 hb
  have hcover := hL.cover
  omega

/-- The headers that `malloc` writes lie on no stack. -/
theorem Handles.stack_kept (h : Handles R s s' number esp ev bs) (hs : Sound R s) {i y : Nat}
    (hi : i < s.k.numTasks) (hy : InBlock ((s.k.tasks i).stack, stackSize) y) :
    ev.mem y = s.k.mem y := by
  have hbytes := task_sizes
  refine h.headers y fun c hc => ?_
  unfold InBlock at hy
  by_cases hzero : i = 0
  · subst hzero
    have houtside := hs.outside
    have hinside := headers_inside h.layout hc
    unfold Outside at houtside
    omega
  · have hapart := HeapRuns.header_apart (h.backed _ (h.live_mono (hs.objects i hi hzero))) hc
    simp only at hapart
    omega

/-- The registers of a frame on a stack are those that were pushed. -/
theorem Handles.getReg_kept (h : Handles R s s' number esp ev bs) (hs : Sound R s) {i : Nat}
    (hi : i < s.k.numTasks) (hlo : (s.k.tasks i).stack ≤ esp)
    (hhi : esp + sizeofCPUState ≤ (s.k.tasks i).stack + stackSize) (r : Reg) :
    getReg ev.mem esp r = getReg s.k.mem esp r := by
  have hfits := hs.fits_all hi
  have hoff : r.offset + 4 ≤ sizeofCPUState := by cases r <;> decide
  have hbytes := task_sizes
  unfold getReg
  rw [add32_eq (by omega)]
  refine readWord_congr fun x hx hx' => h.stack_kept hs hi ?_
  unfold InBlock
  omega

/-- `malloc` writes no byte of a block that is handed out. -/
theorem Handles.payload (h : Handles R s s' number esp ev bs) {q : Nat × Nat} {y : Nat}
    (hq : q ∈ s'.live) (hy : InBlock q y) : ev.mem y = s.k.mem y :=
  payload_frame h.headers (h.backed q hq) hy

/-- The object of a child is apart from those of all tasks. -/
theorem Handles.newObject (h : Handles R s s' number esp ev bs) (hs : Sound R s) {a : Nat}
    (ha : ev.alloc = some a) : NewObject s.k a := by
  have hnew : Backed R bs (a, sizeofTask) := h.backed _ (h.object_live ha)
  have hinside := backed_inside h.layout hnew
  have hbelow := R.below
  unfold Region.stop at hinside
  simp only at hinside
  refine ⟨by omega, fun j hj => hs.fits_all hj, fun j hj => ?_⟩
  by_cases hzero : j = 0
  · subst hzero
    have houtside := hs.outside
    unfold Outside Region.stop at houtside
    omega
  · have hobject := hs.objects j hj hzero
    exact backed_apart hnew (h.backed _ (h.live_mono hobject))
      ((h.answered ha).2.2 _ hobject).symm

/-- An interrupt that may happen, and the event that it is for the kernel. -/
structure Comes (R : Region) (s s' : State) (number esp : Nat) (ev : Event) (bs : List Block) : Prop
    extends Handles R s s' number esp ev bs where
  sound : Sound R s
  enabled : Enabled s.k ev
  framed : OnStacks s.k (s.event number esp)

theorem comes_of_step (hs : Sound R s) (h : (taskSystem R).step s (.interrupt number esp) s') :
    ∃ ev bs, Comes R s s' number esp ev bs := by
  obtain ⟨⟨henabled, hframed⟩, hint⟩ := h
  obtain ⟨ev, bs, hh⟩ := handles_of_interrupt hs.heap hint
  refine ⟨ev, bs, hh, hs, fun hsys => henabled ?_, hframed⟩
  rw [hh.vector] at hsys
  exact hsys

/-- What is a `fork` for the kernel was one before `malloc` was called. -/
theorem Comes.callsFork (h : Comes R s s' number esp ev bs) (hfork : CallsFork ev) :
    CallsFork (s.event number esp) := by
  rcases h.answer with ⟨_, hmem, _⟩ | ⟨_, _, _, hnew, _⟩
  · have hfork' := hfork
    unfold CallsFork at hfork'
    rw [h.vector, h.pointer, hmem] at hfork'
    exact hfork'
  · exact hnew.1

/-- The frame of a system call lies on the stack of a task. -/
theorem Comes.on_stack (h : Comes R s s' number esp ev bs) (hsys : ev.interrupt = syscallVector) :
    ∃ i < s.k.numTasks, (s.k.tasks i).stack ≤ esp
      ∧ esp + sizeofCPUState ≤ (s.k.tasks i).stack + stackSize :=
  h.framed.some_stack (h.enabled hsys)

theorem Comes.placed (h : Comes R s s' number esp ev bs) : Placed s.k ev where
  frame := by
    intro hsys
    obtain ⟨i, hi, _, hhi⟩ := h.on_stack hsys
    have hfits := h.sound.fits_all hi
    have hbytes := task_sizes
    rw [h.pointer]
    omega
  caller := fun _ => h.sound.fits_all h.sound.shape.cur_lt
  fork := by
    intro hfork
    have hin := h.framed.fork (h.callsFork hfork)
    rw [h.pointer]
    exact hin
  object := fun a ha => (h.newObject h.sound ha).fits

/-- What an interrupt may write is on a stack, in the new object, or at null. -/
theorem Comes.written_spared (h : Comes R s s' number esp ev bs) {y : Nat} (hy : Written s.k ev y)
    (hlo : R.start ≤ y) (hhi : y < R.stop) : ∃ q ∈ s'.live, InBlock q y := by
  have hbytes := task_sizes
  have hold : ∀ {i : Nat}, i < s.k.numTasks → InBlock ((s.k.tasks i).stack, stackSize) y →
      ∃ q ∈ s'.live, InBlock q y := by
    intro i hi hin
    obtain ⟨q, hq, hin⟩ := h.sound.stack_spared hi hin hlo hhi
    exact ⟨q, h.live_mono hq, hin⟩
  cases hy with
  | answer hsys hin =>
    obtain ⟨i, hi, hle, hle'⟩ := h.on_stack hsys
    rw [h.pointer] at hin
    unfold InBlock at hin
    unfold sizeofCPUState at hle'
    refine hold hi ⟨?_, ?_⟩
    · show (s.k.tasks i).stack ≤ y
      omega
    · show y < (s.k.tasks i).stack + stackSize
      omega
  | execve _ _ hin =>
    unfold InBlock sizeofCPUState at hin
    refine hold h.sound.shape.cur_lt ⟨?_, ?_⟩
    · show s.k.current.stack ≤ y
      omega
    · show y < s.k.current.stack + stackSize
      omega
  | @child a _ ha hin =>
    unfold InBlock at hin
    refine ⟨(a, sizeofTask), h.object_live ha, hin.1, ?_⟩
    show y < a + sizeofTask
    omega
  | null _ hin =>
    -- the heap is above
    have hnull := h.sound.null
    unfold InBlock nullBytes at hin
    omega

/-- Neither the headers nor what is free notices an interrupt. -/
theorem Comes.spares (h : Comes R s s' number esp ev bs) : SparesHeap R s'.live ev.mem s'.k.mem := by
  intro y hlo hhi hfree
  rw [h.kernel]
  refine written_only h.sound.shape h.enabled h.placed fun hy => ?_
  obtain ⟨q, hq, hin⟩ := h.written_spared hy hlo hhi
  exact hfree q hq hin

/-- The tasks of the table after an interrupt: the old ones, and a child in the block that `malloc`
    has just handed out. -/
theorem Comes.object_cases (h : Comes R s s' number esp ev bs) {i : Nat}
    (hi : i < s'.k.numTasks) :
    (i < s.k.numTasks ∧ (s'.k.tasks i).stack = (s.k.tasks i).stack) ∨
      (i = s.k.numTasks ∧ s'.live = ((s'.k.tasks i).stack, sizeofTask) :: s.live
        ∧ ∀ q ∈ s.live, q.1 ≠ (s'.k.tasks i).stack) := by
  rw [h.kernel] at hi ⊢
  rcases Nat.lt_or_ge i s.k.numTasks with hlt | hge
  · exact .inl ⟨hlt, object_kept h.sound.shape h.enabled hlt⟩
  · obtain ⟨heq, a, halloc, hstack⟩ := object_added h.sound.shape h.enabled hge hi
    obtain ⟨_, hlive, hold⟩ := h.answered halloc
    rw [hstack]
    exact .inr ⟨heq, hlive, hold⟩

/-- **An interrupt keeps heap and objects whole.** -/
theorem Comes.keeps (h : Comes R s s' number esp ev bs) : Sound R s' := by
  have hs := h.sound
  have hpos := hs.shape.pos
  have hzero : (s'.k.tasks 0).stack = (s.k.tasks 0).stack := by
    rw [h.kernel]
    exact object_kept hs.shape h.enabled hpos
  refine ⟨?_, heapInv_spared ⟨bs, h.layout, h.backed⟩ h.spares, hs.null, ?_, ?_, ?_, ?_⟩
  · rw [h.kernel]
    exact interrupt_shape hs.shape h.enabled
  · rw [hzero]
    exact hs.outside
  · rw [hzero]
    exact hs.fits
  · intro i hi hne
    rcases h.object_cases hi with ⟨hlt, heq⟩ | ⟨_, hlive, _⟩
    · rw [heq]
      exact h.live_mono (hs.objects i hlt hne)
    · rw [hlive]
      exact List.mem_cons_self
  · intro i hi j hj hne hne' hij
    rcases h.object_cases hi with ⟨hlt, heq⟩ | ⟨hi', _, hold⟩
    · rcases h.object_cases hj with ⟨hlt', heq'⟩ | ⟨_, _, hold'⟩
      · rw [heq, heq']
        exact hs.distinct i hlt j hlt' hne hne' hij
      · rw [heq]
        exact hold' _ (hs.objects i hlt hne)
    · rcases h.object_cases hj with ⟨hlt', heq'⟩ | ⟨hj', _, _⟩
      · rw [heq']
        exact (hold _ (hs.objects j hlt' hne')).symm
      · exact absurd (hi'.trans hj'.symm) hij

/-! ## §4. Runs. -/

theorem shape_mem {k : TaskManager} (h : Shape k) (m : Mem) : Shape { k with mem := m } :=
  ⟨⟨h.le, h.lo, h.hi⟩, h.pos⟩

/-- A call of the memory manager keeps the objects that stay handed out. -/
theorem Sound.withHeap (hs : Sound R s) {h : Heap} (hheap : HeapInv R ⟨h, live⟩)
    (hkept : ∀ i < s.k.numTasks, i ≠ 0 → ((s.k.tasks i).stack, sizeofTask) ∈ live) :
    Sound R (s.withHeap h live) :=
  ⟨shape_mem hs.shape h.mem, hheap, hs.null, hs.outside, hs.fits, hkept, hs.distinct⟩

/-- **The step lemma.** -/
theorem sound_step {a : Act} (hs : Sound R s) (h : (taskSystem R).step s a s') : Sound R s' := by
  cases a with
  | run mem =>
    obtain ⟨hkeep, hafter⟩ := h
    obtain rfl := Option.some.inj hafter
    have hspares : SparesHeap R s.live s.k.mem mem := by
      intro y hlo hhi hfree
      refine hkeep y fun hmay => ?_
      rcases hmay.1 with hlt | hge | ⟨q, hq, hin⟩
      · omega
      · omega
      · exact hfree q hq hin
    exact ⟨shape_mem hs.shape mem, heapInv_spared hs.heap hspares, hs.null, hs.outside, hs.fits,
      hs.objects, hs.distinct⟩
  | malloc n =>
    obtain ⟨hn, hafter⟩ := h
    obtain ⟨⟨p, h'⟩, hm, rfl⟩ := Option.map_eq_some_iff.mp hafter
    refine hs.withHeap (heapInv_step hs.heap (.malloc hn hm)) fun i hi hne => ?_
    have hobject := hs.objects i hi hne
    split
    · exact hobject
    · exact List.mem_cons_of_mem _ hobject
  | free p =>
    obtain ⟨⟨⟨n, hp⟩, hapart⟩, hafter⟩ := h
    obtain rfl := Option.some.inj hafter
    refine hs.withHeap (heapInv_step hs.heap (.free hp)) fun i hi hne => ?_
    simp only [List.mem_filter, decide_eq_true_eq]
    exact ⟨hs.objects i hi hne, hapart i hi⟩
  | interrupt number esp =>
    obtain ⟨ev, bs, hh⟩ := comes_of_step hs h
    exact hh.keeps

/-- Booting writes the two objects of the init task only. -/
theorem boot_mem_of_out (tasks : Nat → Task) (m : Mem) {stack gdt entrypoint y : Nat}
    (hentry : entrypoint ≠ 0) (hstack : stack + sizeofTask ≤ 2 ^ 32)
    (hslot : (tasks 0).stack + sizeofTask ≤ 2 ^ 32)
    (hy : y < stack ∨ stack + sizeofTask ≤ y)
    (hy' : y < (tasks 0).stack ∨ (tasks 0).stack + sizeofTask ≤ y) :
    (boot tasks m stack gdt entrypoint).mem y = m y := by
  have hbytes := task_sizes
  -- `AddTask` copies ten registers into the frame of the slot
  have hcopy : ∀ (m : Mem) (r : Reg) (v : Nat),
      setReg m (sub32 (add32 (tasks 0).stack stackSize) sizeofCPUState) r v y = m y := by
    intro m r v
    rw [top_frame hslot]
    refine setReg_of_out m r v (by omega) fun hin => ?_
    unfold InBlock at hin
    omega
  have hconstruct : (Task.construct m 0 stack gdt entrypoint).1 y = m y :=
    construct_of_out hentry (by omega) (by omega)
  unfold boot AddTask
  simp only [show ¬ 256 ≤ 0 from by decide, if_false, List.foldl_cons, List.foldl_nil, hcopy,
    hconstruct]

/-- One task, with its object outside a heap that is whole. -/
theorem Sound.start {k : TaskManager} {h : HeapState} (hshape : Shape k) (hone : k.numTasks = 1)
    (hnull : sizeofTask ≤ R.start) (hout : Outside R (k.tasks 0).stack)
    (hfits : (k.tasks 0).stack + sizeofTask ≤ 2 ^ 32) (hheap : HeapInv R h)
    (hsame : ∀ y, R.start ≤ y → y < R.stop → k.mem y = h.heap.mem y) :
    Sound R ⟨k, h.heap.first, h.live⟩ := by
  have hzero : ∀ i < k.numTasks, i = 0 := by omega
  obtain ⟨bs, hL, hlive⟩ := hheap
  have hcover := hL.cover
  have hchain := chain_frame (fun y hy hy' => hsame y hy (by omega)) hL.chain
  exact ⟨hshape, ⟨bs, ⟨hL.first, hcover, hchain, hL.separated⟩, hlive⟩, hnull, hout, hfits,
    fun i hi hne => absurd (hzero i hi) hne, fun i hi _ _ hne => absurd (hzero i hi) hne⟩

/-- **The run lemma.** -/
theorem sound_reachable (h : (taskSystem R).Reachable s) : Sound R s := by
  refine h.invariant ?_ fun s a s' hs hstep => sound_step hs hstep
  rintro _ ⟨tasks, stack, gdt, entrypoint, hs, hheap, hentry, hnull, hout, hfits, hout', hfits', rfl⟩
  have hzero : ((boot tasks hs.heap.mem stack gdt entrypoint).tasks 0).stack = (tasks 0).stack := by
    unfold boot AddTask
    simp
  refine Sound.start (boot_inv ..).toShape rfl hnull ?_ ?_ (heapInv_reachable hheap)
    fun y hy hy' => ?_
  · rwa [hzero]
  · rwa [hzero]
  · unfold Outside at hout hout'
    exact boot_mem_of_out tasks _ hentry hfits hfits' (by omega) (by omega)

/-- Every interrupt comes back: the scan of `malloc` ends. -/
theorem interrupt_isSome (hs : Sound R s) (number esp : Nat) :
    (s.interrupt number esp).isSome := by
  obtain ⟨bs, hL, _⟩ := hs.heap
  have hmalloc : (MemoryManager.malloc s.heap sizeofTask).isSome := by
    have href := @malloc_refines R sizeofTask _ bs hL
    split at href
    · rw [show malloc s.heap sizeofTask = _ from href]
      rfl
    · obtain ⟨h', hm, _⟩ := href
      rw [show malloc s.heap sizeofTask = _ from hm]
      rfl
  unfold State.interrupt
  split
  · rwa [Option.isSome_map]
  · rfl

/-! ## §5. Two forks. -/

def State.next (s : State) (a : Act) : State := (s.after a).getD s

theorem next_step {a : Act} (hallowed : Allowed R s a) (h : (s.after a).isSome) :
    (taskSystem R).step s a (s.next a) := by
  obtain ⟨s', hafter⟩ := Option.isSome_iff_exists.mp h
  refine ⟨hallowed, ?_⟩
  unfold State.next
  rw [hafter]
  rfl

/-- A heap with room for one task. -/
def narrow : Region := ⟨0xB00000, 4160, by decide, by decide, by decide⟩

/-- The init task, with its record at 2 MiB. -/
def started : State :=
  ⟨boot (fun _ => ⟨0x200000, 0, .READY, 0, 0, 0x1000, 0⟩)
    (init (fun _ => 0) narrow.start narrow.size).mem 0x300000 0x1000 0x100000,
    (init (fun _ => 0) narrow.start narrow.size).first, []⟩

/-- It runs, and allocates 24 bytes. -/
def crowded : State := (started.next (.interrupt timerVector 0x9000)).next (.malloc 24)

/-- It calls `fork`, with its frame at 0x200F00. -/
def calling : State :=
  crowded.next (.run (setReg (setReg crowded.k.mem 0x200F00 .eax 2) 0x200F00 .eip 0x100000))

/-- There is no memory for a child. -/
def refused : State := calling.next (.interrupt syscallVector 0x200F00)

/-- It frees the 24 bytes. -/
def freed : State := refused.next (.free 0xB00010)

/-- It calls `fork` once more. -/
def parent : State := freed.next (.interrupt syscallVector 0x200F00)

theorem calling_reachable : (taskSystem narrow).Reachable calling := by
  have hstarted : (taskSystem narrow).Reachable started :=
    .start ⟨_, _, _, _, ⟨_, []⟩, .start ⟨fun _ => 0, rfl⟩, by decide, by decide, .inl (by decide),
      by decide, .inl (by decide), by decide, rfl⟩
  have hticked := hstarted.next (next_step (a := .interrupt timerVector 0x9000)
    ⟨fun h => absurd h (by decide), fun h => absurd h (by decide), fun h => absurd h.1 (by decide)⟩
    (by decide +kernel))
  have hcrowded : (taskSystem narrow).Reachable crowded :=
    hticked.next (next_step (a := .malloc 24) (show 24 < 2 ^ 32 by decide) (by decide +kernel))
  refine hcrowded.next (next_step (a := .run _) (fun y hy => ?_) rfl)
  -- the frame is outside the heap, and below the fields of the record
  have hone : crowded.k.numTasks = 1 := by decide +kernel
  have hrecord : (crowded.k.tasks 0).stack = 0x200000 := by decide +kernel
  have hout : ∀ (m : Mem) (r : Reg) (v : Nat), setReg m 0x200F00 r v y = m y := by
    intro m r v
    refine setReg_of_out m r v (by decide) fun hin => hy ⟨.inl ?_, fun i hi hfield => ?_⟩
    · exact Nat.lt_trans hin.2 (by decide)
    · obtain rfl : i = 0 := by omega
      rw [hrecord] at hfield
      exact absurd (Nat.lt_of_le_of_lt hfield.1 hin.2) (by decide)
  rw [hout, hout]

/-- The init task, which is the only one, calls from its own stack. -/
theorem onStacks_init {k : TaskManager} {ev : Event} (hpos : 0 < k.numTasks) (hcur : k.cur = 0)
    (hlo : (k.tasks 0).stack ≤ ev.esp)
    (hhi : ev.esp + sizeofCPUState ≤ (k.tasks 0).stack + stackSize) : OnStacks k ev where
  some_stack _ := ⟨0, hpos, hlo, hhi⟩
  fork _ := by
    have hcurrent : k.current = k.tasks 0 := congrArg k.tasks hcur
    exact ⟨by rwa [hcurrent], by rwa [hcurrent]⟩

theorem calling_forks :
    (taskSystem narrow).step calling (.interrupt syscallVector 0x200F00) refused :=
  next_step ⟨by decide +kernel, onStacks_init (by decide +kernel) (by decide +kernel)
    (by decide +kernel) (by decide +kernel)⟩ (by decide +kernel)

theorem refused_frees : (taskSystem narrow).step refused (.free 0xB00010) freed :=
  next_step ⟨⟨24, by decide +kernel⟩, by decide +kernel⟩ (by decide +kernel)

theorem freed_forks : (taskSystem narrow).step freed (.interrupt syscallVector 0x200F00) parent :=
  next_step ⟨by decide +kernel, onStacks_init (by decide +kernel) (by decide +kernel)
    (by decide +kernel) (by decide +kernel)⟩ (by decide +kernel)

theorem freed_reachable : (taskSystem narrow).Reachable freed :=
  (calling_reachable.next calling_forks).next refused_frees

/-! ## §6. Tasks apart, interrupts confined. -/

/-- The bytes from `a` and from `b` on have no address in common. -/
def Apart (a m b n : Nat) : Prop := a + m ≤ b ∨ b + n ≤ a

/-- **Tasks stay apart.**  In every run the objects of the tasks lie in the address space, and overlap
    neither each other nor a header of the chunk list, which tiles the region; and every interrupt
    comes back. -/
theorem tasks_apart (R : Region) (s : State) (h : (taskSystem R).Reachable s) :
    (∀ i < s.k.numTasks, (s.k.tasks i).stack + sizeofTask ≤ 2 ^ 32) ∧
    (∀ i < s.k.numTasks, ∀ j < s.k.numTasks, i ≠ j →
      Apart (s.k.tasks i).stack sizeofTask (s.k.tasks j).stack sizeofTask) ∧
    (∃ cs, ChunkList s.k.mem s.first cs ∧ Tiles s.k.mem R cs ∧
      ∀ c ∈ cs, ∀ i < s.k.numTasks, Apart (s.k.tasks i).stack sizeofTask c sizeofMemoryChunk) ∧
    ∀ number esp, (s.interrupt number esp).isSome := by
  have hs := sound_reachable h
  obtain ⟨bs, hL, hlive⟩ := hs.heap
  refine ⟨fun i hi => hs.fits_all hi, fun i hi j hj hne => hs.apart hi hj hne,
    ⟨addrs 16 R.start bs, layout_chunkList hL, layout_tiles hL, fun c hc i hi => ?_⟩,
    fun number esp => interrupt_isSome hs number esp⟩
  by_cases hzero : i = 0
  · subst hzero
    have houtside := hs.outside
    have hinside := headers_inside hL hc
    unfold Outside at houtside
    unfold Apart sizeofMemoryChunk
    omega
  · exact HeapRuns.header_apart (hlive _ (hs.objects i hi hzero)) hc

/-- After the second `fork`, the heap is the object of the child. -/
theorem tasks_apart_parent : parent.live = [(0xB00010, sizeofTask)] ∧
    (∀ i < parent.k.numTasks, ∀ j < parent.k.numTasks, i ≠ j →
      Apart (parent.k.tasks i).stack sizeofTask (parent.k.tasks j).stack sizeofTask) ∧
    (parent.k.tasks 1).stack = 0xB00010 :=
  ⟨by decide +kernel, (tasks_apart narrow _ (freed_reachable.next freed_forks)).2.1,
    by decide +kernel⟩

/-- What an interrupt may do: it is one of the kernel on its own, with the registers that were pushed,
    whose `new Task` answers with memory apart from every task.  It writes what `Written` allows and
    headers only; a block that is handed out keeps its bytes, but for those of the caller's object and
    of `ecx` in the interrupted frame. -/
structure Confined (s s' : State) (number esp : Nat) : Prop where
  event : ∃ ev cs, ev.interrupt = number ∧ ev.esp = esp
    ∧ (0 ≤ s.k.currentTask → ∀ r, getReg ev.mem esp r = getReg s.k.mem esp r)
    ∧ (∀ a, ev.alloc = some a → a ≠ 0 ∧ NewObject s.k a)
    ∧ kernelSystem.step s.k ev s'.k ∧ ChunkList s'.k.mem s'.first cs
    ∧ ∀ y, s'.k.mem y ≠ s.k.mem y → Written s.k ev y ∨ ∃ c ∈ cs, InBlock (c, sizeofMemoryChunk) y
  blocks : ∀ q ∈ s.live, q.1 ≠ s.k.current.stack → ∀ y, InBlock q y →
    ¬ InBlock (esp + 8, 4) y → s'.k.mem y = s.k.mem y

/-- A block that is not the caller's has no byte of the caller's object. -/
theorem Sound.caller_apart (hs : Sound R s) {q : Nat × Nat} {y : Nat} (hq : q ∈ s.live)
    (hne : q.1 ≠ s.k.current.stack) (hin : InBlock q y) :
    ¬ InBlock (s.k.current.stack, sizeofTask) y := by
  obtain ⟨bs, hL, hlive⟩ := hs.heap
  have hbytes := task_sizes
  unfold InBlock at hin ⊢
  unfold TaskManager.current at hne ⊢
  by_cases hzero : s.k.cur = 0
  · have houtside := hs.outside
    have hinside := backed_inside hL (hlive q hq)
    unfold Outside at houtside
    rw [hzero]
    simp only
    omega
  · have hapart := backed_apart (hlive q hq)
      (hlive _ (hs.objects s.k.cur hs.shape.cur_lt hzero)) hne
    simp only at hapart ⊢
    omega

/-- What an interrupt may write in a block is in the caller's object or in the frame. -/
theorem Comes.block_kept (h : Comes R s s' number esp ev bs) {q : Nat × Nat} {y : Nat}
    (hq : q ∈ s.live) (hne : q.1 ≠ s.k.current.stack) (hin : InBlock q y)
    (hframe : ¬ InBlock (esp + 8, 4) y) : ¬ Written s.k ev y := by
  have hbytes := task_sizes
  have hbacked := h.backed q (h.live_mono hq)
  intro hy
  cases hy with
  | answer _ hin' =>
    rw [h.pointer] at hin'
    exact hframe hin'
  | execve _ _ hin' =>
    refine h.sound.caller_apart hq hne hin ?_
    unfold InBlock sizeofCPUState at hin'
    unfold InBlock sizeofTask
    omega
  | @child a _ ha hin' =>
    have hapart := backed_apart hbacked (h.backed _ (h.object_live ha)) ((h.answered ha).2.2 q hq)
    unfold InBlock at hin hin'
    simp only at hapart
    omega
  | null _ hin' =>
    have hinside := backed_inside h.layout hbacked
    have hnull := h.sound.null
    unfold InBlock nullBytes at hin'
    unfold InBlock at hin
    omega

end SystemOS.Kernel.TaskHeap
