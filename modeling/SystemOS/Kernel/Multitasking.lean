/-
  SystemOS.Kernel.Multitasking — the task manager of the kernel and the interrupt path into it.

  Each definition below carries the name of the C++ function it translates.  A task's stack and the
  saved frames live in byte memory; the other fields of a `Task` are kept as a record per slot, with
  the address of the object beside them.  `tasks[i]` is a null pointer when that address is 0.

  What an interrupt leaves to the environment is in `Event`: the vector, the stack pointer at which
  the frame was pushed, the memory as the interrupted code left it, and the answer of operator new.
-/
import SystemOS.Lib.ByteMemory

namespace SystemOS.Kernel.Multitasking

open SystemOS.Lib.ByteMemory

/-! ## §1. The saved frame. -/

/-- The fields of `CPUState`, in the order of the packed struct. -/
inductive Reg
  | eax | ebx | ecx | edx | esi | edi | ebp | error | eip | cs | eflags | esp | ss
  deriving DecidableEq, Repr

/-- Offset of a field in `CPUState`. -/
def Reg.offset : Reg → Nat
  | .eax => 0 | .ebx => 4 | .ecx => 8 | .edx => 12 | .esi => 16 | .edi => 20 | .ebp => 24
  | .error => 28 | .eip => 32 | .cs => 36 | .eflags => 40 | .esp => 44 | .ss => 48

def sizeofCPUState : Nat := 52

/-- `cpustate->r`. -/
def getReg (m : Mem) (cpustate : Nat) (r : Reg) : Nat := readWord m (add32 cpustate r.offset)

/-- `cpustate->r = v`. -/
def setReg (m : Mem) (cpustate : Nat) (r : Reg) (v : Nat) : Mem :=
  writeWord m (add32 cpustate r.offset) v

/-! ## §2. Tasks. -/

/-- `TaskState`; `UNKNOWN` stands for the words that are no state, as in `printProcessTable`. -/
inductive TaskState
  | READY | WAITING | FINISHED
  | UNKNOWN (word : Nat)
  deriving DecidableEq, Repr

/-- The word that holds a state. -/
def TaskState.toWord : TaskState → Nat
  | .READY => 0 | .WAITING => 1 | .FINISHED => 2 | .UNKNOWN word => word

/-- The state that a word holds. -/
def TaskState.ofWord : Nat → TaskState
  | 0 => .READY | 1 => .WAITING | 2 => .FINISHED | word => .UNKNOWN word

/-- A `Task` object; `stack` is the address of the object, where its 4096 stack bytes start. -/
structure Task where
  stack : Nat
  cpustate : Nat
  taskState : TaskState
  pid : Nat
  ppid : Nat
  gdt : Nat
  waitPid : Nat

/-- The task manager, the counter `processCounter` and the memory that holds the stacks. -/
structure TaskManager where
  tasks : Nat → Task
  numTasks : Nat
  currentTask : Int
  processCounter : Nat
  mem : Mem

def stackSize : Nat := 4096

/-- `(uint32_t)-1`. -/
def minusOne : Nat := 4294967295

/-- `GlobalDescriptorTable::CodeSegmentSelector`: the offset of the third descriptor. -/
def CodeSegmentSelector : Nat := 16

/-- The constructor `Task::Task(gdt, entrypoint)` on the object at `stack`. -/
def Task.construct (m : Mem) (processCounter stack gdt entrypoint : Nat) : Mem × Nat × Task :=
  let cpustate :=
    if entrypoint ≠ 0 then sub32 (add32 stack stackSize) sizeofCPUState else 0
  let m := if entrypoint ≠ 0 then setReg m cpustate .eip entrypoint else m
  let m := setReg m cpustate .eax 0
  let m := setReg m cpustate .ebx 0
  let m := setReg m cpustate .ecx 0
  let m := setReg m cpustate .edx 0
  let m := setReg m cpustate .esi 0
  let m := setReg m cpustate .edi 0
  let m := setReg m cpustate .ebp 0
  let m := setReg m cpustate .eip entrypoint
  let m := setReg m cpustate .cs CodeSegmentSelector
  let m := setReg m cpustate .eflags 0x202
  (m, add32 processCounter 1,
    { stack := stack, cpustate := cpustate, taskState := .READY, pid := processCounter,
      ppid := minusOne, gdt := gdt, waitPid := minusOne })

/-! ## §3. The object at null.

The operators new of the kernel are not `noexcept`, so `new Task` runs the constructor also where
they answer a null pointer: it fills a frame below address 4096 and the fields of a `Task` from 4096
on.  A record that lies there changes with them. -/

/-- The fields of `t` in memory, behind the stack of its object. -/
def Task.store (t : Task) (m : Mem) : Mem :=
  let field := fun (m : Mem) (offset v : Nat) => writeWord m (add32 t.stack (stackSize + offset)) v
  let m := field m 0 t.cpustate
  let m := field m 4 t.taskState.toWord
  let m := field m 8 t.pid
  let m := field m 12 t.ppid
  let m := field m 16 t.gdt
  field m 20 t.waitPid

/-- The record of the object at `stack`, read from memory. -/
def Task.load (m : Mem) (stack : Nat) : Task :=
  let field := fun offset => readWord m (add32 stack (stackSize + offset))
  { stack := stack, cpustate := field 0, taskState := .ofWord (field 4), pid := field 8,
    ppid := field 12, gdt := field 16, waitPid := field 20 }

/-- The fields of `t` share no byte with the frame and the fields of the object at null. -/
def Task.ClearOfNull (t : Task) : Prop :=
  add32 t.stack stackSize + 24 ≤ stackSize - sizeofCPUState
    ∨ stackSize + 24 ≤ add32 t.stack stackSize

instance (t : Task) : Decidable t.ClearOfNull := by
  unfold Task.ClearOfNull
  infer_instance

/-- The record `t` after the constructor has filled the object at null. -/
def Task.afterNull (m : Mem) (processCounter gdt entrypoint : Nat) (t : Task) : Task :=
  if t.stack = 0 then (Task.construct m processCounter 0 gdt entrypoint).2.2
  else if t.ClearOfNull then t
  else
    -- the two share bytes: lay the record in memory and read it back
    let built := Task.construct (t.store m) processCounter 0 gdt entrypoint
    Task.load (built.2.2.store built.1) t.stack

@[simp] theorem Task.load_stack (m : Mem) (stack : Nat) : (Task.load m stack).stack = stack := rfl

@[simp] theorem Task.construct_stack (m : Mem) (processCounter stack gdt entrypoint : Nat) :
    (Task.construct m processCounter stack gdt entrypoint).2.2.stack = stack := rfl

@[simp] theorem Task.construct_pid (m : Mem) (processCounter stack gdt entrypoint : Nat) :
    (Task.construct m processCounter stack gdt entrypoint).2.2.pid = processCounter := rfl

@[simp] theorem Task.construct_taskState (m : Mem) (processCounter stack gdt entrypoint : Nat) :
    (Task.construct m processCounter stack gdt entrypoint).2.2.taskState = .READY := rfl

theorem Task.ClearOfNull.ne_null {t : Task} (h : t.ClearOfNull) : t.stack ≠ 0 := by
  intro hnull
  unfold Task.ClearOfNull at h
  rw [hnull] at h
  revert h
  decide

theorem Task.afterNull_of_clear {t : Task} (h : t.ClearOfNull) (m : Mem)
    (processCounter gdt entrypoint : Nat) : t.afterNull m processCounter gdt entrypoint = t := by
  unfold Task.afterNull
  rw [if_neg h.ne_null, if_pos h]

theorem Task.afterNull_of_null {t : Task} (h : t.stack = 0) (m : Mem)
    (processCounter gdt entrypoint : Nat) : t.afterNull m processCounter gdt entrypoint
      = (Task.construct m processCounter 0 gdt entrypoint).2.2 := if_pos h

/-- The object stays where it is. -/
theorem Task.afterNull_stack (t : Task) (m : Mem) (processCounter gdt entrypoint : Nat) :
    (t.afterNull m processCounter gdt entrypoint).stack = t.stack := by
  unfold Task.afterNull
  by_cases hnull : t.stack = 0
  · rw [if_pos hnull, Task.construct_stack, hnull]
  rw [if_neg hnull]
  by_cases hclear : t.ClearOfNull
  · rw [if_pos hclear]
  · simp only [if_neg hclear, Task.load_stack]

namespace TaskManager

/-! ## §4. Slots. -/

def setTask (k : TaskManager) (i : Nat) (t : Task) : TaskManager :=
  { k with tasks := Function.update k.tasks i t }

@[simp] theorem setTask_self (k : TaskManager) (i : Nat) (t : Task) :
    (k.setTask i t).tasks i = t := Function.update_self ..

theorem setTask_of_ne (k : TaskManager) {i j : Nat} (t : Task) (h : j ≠ i) :
    (k.setTask i t).tasks j = k.tasks j := Function.update_of_ne h ..

@[simp] theorem setTask_numTasks (k : TaskManager) (i : Nat) (t : Task) :
    (k.setTask i t).numTasks = k.numTasks := rfl

@[simp] theorem setTask_currentTask (k : TaskManager) (i : Nat) (t : Task) :
    (k.setTask i t).currentTask = k.currentTask := rfl

@[simp] theorem setTask_processCounter (k : TaskManager) (i : Nat) (t : Task) :
    (k.setTask i t).processCounter = k.processCounter := rfl

/-- The slot `currentTask`, for a task that is running. -/
def cur (k : TaskManager) : Nat := k.currentTask.toNat

/-- `*tasks[currentTask]`. -/
def current (k : TaskManager) : Task := k.tasks k.cur

def setCurrent (k : TaskManager) (t : Task) : TaskManager := k.setTask k.cur t

@[simp] theorem setCurrent_self (k : TaskManager) (t : Task) :
    (k.setCurrent t).tasks k.cur = t := setTask_self ..

/-! ## §5. The system calls. -/

def getCurrentTaskPid (k : TaskManager) : Nat := k.current.pid

/-- The loop of `getTaskIndex`, from slot `i` on with `fuel` slots left. -/
def getTaskIndexFrom (k : TaskManager) (pid : Nat) : Nat → Nat → Nat
  | 0, _ => minusOne
  | fuel + 1, i => if (k.tasks i).pid = pid then i else getTaskIndexFrom k pid fuel (i + 1)

def getTaskIndex (k : TaskManager) (pid : Nat) : Nat := k.getTaskIndexFrom pid k.numTasks 0

/-- `exitTask`; it always returns `true`. -/
def exitTask (k : TaskManager) : TaskManager :=
  k.setCurrent { k.current with taskState := .FINISHED }

/-- The stack copy of `forkTask`, byte by byte. -/
def copyStack (m : Mem) (src dst : Nat) : Nat → Mem
  | 0 => m
  | i + 1 =>
    let m := copyStack m src dst i
    writeByte m (add32 dst i) (m (add32 src i))

/-- `forkTask`, with `alloc` the answer of operator new: an address, or `none` for a null pointer. -/
def forkTask (k : TaskManager) (cpustate : Nat) (alloc : Option Nat) : TaskManager × Nat :=
  if 256 ≤ k.numTasks then (k, 0)
  else
    let entrypoint := getReg k.mem cpustate .eip
    let gdt := k.current.gdt
    if gdt = 0 ∨ entrypoint = 0 then (k, minusOne)
    else
      match alloc with
      | none =>
        -- the constructor has run on the null pointer before the test sees it
        let (m, processCounter, null) := Task.construct k.mem k.processCounter 0 gdt entrypoint
        let tasks := fun i => (k.tasks i).afterNull k.mem k.processCounter gdt entrypoint
        ({ k with
            tasks := Function.update tasks k.numTasks null
            processCounter := processCounter
            mem := null.store m }, minusOne)
      | some a =>
        let (m, processCounter, child) := Task.construct k.mem k.processCounter a gdt entrypoint
        let child := { child with taskState := .READY, ppid := k.current.pid }
        let m := copyStack m k.current.stack a stackSize
        let offset := sub32 cpustate k.current.stack
        let child := { child with cpustate := add32 a offset }
        let m := setReg m child.cpustate .esp
          (add32 a (sub32 (getReg m cpustate .esp) k.current.stack))
        let m := setReg m child.cpustate .ecx 0
        ({ k.setTask k.numTasks child with
            numTasks := k.numTasks + 1, processCounter := processCounter, mem := m }, child.pid)

/-- `execveTask`: the frame is rebuilt at the top of the stack of the calling task. -/
def execveTask (k : TaskManager) (entrypoint : Nat) : TaskManager × Nat :=
  let t := k.current
  let cpustate := sub32 (add32 t.stack stackSize) sizeofCPUState
  let m := setReg k.mem cpustate .eax 0
  let m := setReg m cpustate .ebx 0
  let m := setReg m cpustate .ecx t.pid
  let m := setReg m cpustate .esi 0
  let m := setReg m cpustate .edi 0
  let m := setReg m cpustate .ebp 0
  let m := setReg m cpustate .error 0
  let m := setReg m cpustate .eip entrypoint
  let m := setReg m cpustate .cs CodeSegmentSelector
  let m := setReg m cpustate .esp (add32 t.stack stackSize)
  let m := setReg m cpustate .eflags 0x202
  ({ k.setCurrent { t with taskState := .READY, cpustate := cpustate } with mem := m }, cpustate)

def waitpidTask (k : TaskManager) (esp : Nat) : TaskManager × Bool :=
  let pid := getReg k.mem esp .ebx
  if pid = k.current.pid ∨ pid = 0 then (k, false)
  else
    let childIndex := k.getTaskIndex pid
    if childIndex = minusOne then (k, false)
    else if (k.tasks childIndex).taskState = .FINISHED then (k, false)
    else
      (k.setCurrent { k.current with taskState := .WAITING, waitPid := pid, cpustate := esp }, true)

/-- `AddTask`: the fields it copies, into the record that `tasks[numTasks]` points to. -/
def AddTask (k : TaskManager) (task : Task) : TaskManager × Bool :=
  if 256 ≤ k.numTasks then (k, false)
  else
    let t := k.tasks k.numTasks
    let cpustate := sub32 (add32 t.stack stackSize) sizeofCPUState
    let copy := fun (m : Mem) (r : Reg) => setReg m cpustate r (getReg m task.cpustate r)
    let m := [Reg.eax, .ebx, .ecx, .edx, .esi, .edi, .ebp, .eip, .cs, .eflags].foldl copy k.mem
    ({ k.setTask k.numTasks { t with taskState := .READY, pid := task.pid, ppid := task.ppid,
                                     cpustate := cpustate } with
        numTasks := k.numTasks + 1, mem := m }, true)

/-! ## §6. `Schedule`. -/

/-- The unblocking test of the scan at slot `i`. -/
def unblock (k : TaskManager) (i : Nat) : TaskManager :=
  if (k.tasks i).taskState = .WAITING then
    let childIndex := k.getTaskIndex (k.tasks i).waitPid
    if childIndex ≠ minusOne ∧ (k.tasks childIndex).taskState = .FINISHED then
      k.setTask i { k.tasks i with taskState := .READY, waitPid := 0 }
    else k
  else k

/-- The loop of `Schedule`: `fuel` slots left to look at, `nextTask` the one at hand. -/
def scanTasks (k : TaskManager) (cpustate : Nat) : Nat → Nat → TaskManager × Nat
  | 0, _ => (k, cpustate)
  | fuel + 1, nextTask =>
    let k := k.unblock nextTask
    if (k.tasks nextTask).taskState = .READY then
      ({ k with currentTask := nextTask }, (k.tasks nextTask).cpustate)
    else scanTasks k cpustate fuel ((nextTask + 1) % k.numTasks)

/-- Save the interrupted frame in the record of the current task, if there is one. -/
def saveContext (k : TaskManager) (cpustate : Nat) : TaskManager :=
  if 0 ≤ k.currentTask then k.setCurrent { k.current with cpustate := cpustate } else k

def Schedule (k : TaskManager) (cpustate : Nat) : TaskManager × Nat :=
  if k.numTasks = 0 then (k, cpustate)
  else
    let k := k.saveContext cpustate
    k.scanTasks cpustate k.numTasks ((k.currentTask + 1) % (k.numTasks : Int)).toNat

end TaskManager

/-! ## §7. Interrupts. -/

open TaskManager

/-- `SyscallHandler::HandleInterrupt`. -/
def SyscallHandler.HandleInterrupt (k : TaskManager) (esp : Nat) (alloc : Option Nat) :
    TaskManager × Nat :=
  match getReg k.mem esp .eax with
  | 1 => Schedule (exitTask k) esp
  | 7 =>
    let (k, blocked) := waitpidTask k esp
    if blocked then Schedule k esp else (k, esp)
  | 11 => execveTask k (getReg k.mem esp .ebx)
  | 20 => ({ k with mem := setReg k.mem esp .ecx (getCurrentTaskPid k) }, esp)
  | 2 =>
    let (k, pid) := forkTask k esp alloc
    Schedule { k with mem := setReg k.mem esp .ecx pid } esp
  | _ => (k, esp)

/-- One interrupt, as the hardware and the interrupted code present it. -/
structure Event where
  interrupt : Nat
  esp : Nat
  mem : Mem
  alloc : Option Nat

/-- The vector of the timer, `hardwareInterruptOffset`. -/
def timerVector : Nat := 0x20

/-- The number under which the handler of `int 0x80` is registered. -/
def syscallVector : Nat := 0x80 + 0x20

/-- `InterruptManager::DoHandleInterrupt`.  Only the system call handler is registered. -/
def DoHandleInterrupt (k : TaskManager) (ev : Event) : TaskManager × Nat :=
  let k := { k with mem := ev.mem }
  if ev.interrupt = syscallVector then SyscallHandler.HandleInterrupt k ev.esp ev.alloc
  else if ev.interrupt = timerVector then Schedule k ev.esp
  else (k, ev.esp)

end SystemOS.Kernel.Multitasking
