/-
  SystemOS.Kernel.InterruptStubs — the assembly around the interrupt handler.

  A task runs at ring 0, so that the processor pushes flags, code segment and instruction pointer on
  the task's own stack, and an error code for some exceptions.  The stubs push the rest of a
  `CPUState`, call the handler with its address, and reload the registers from the address that the
  handler answers.

  Main results:
    * `restore_eq`          — the stub leaves the registers that the frame at the answer holds.
    * `interruptFrame_load` — the frame that it makes holds the interrupted registers.
    * `resumes_iff`         — for every vector, the interrupted code goes on exactly when the words
      pushed by processor and stub together are those of a `CPUState`.
-/
import SystemOS.Kernel.Contexts
import SystemOS.Lib.WordStack

namespace SystemOS.Kernel.InterruptStubs

open SystemOS.Lib.ByteMemory SystemOS.Lib.WordStack
open SystemOS.Kernel.Multitasking SystemOS.Kernel.Contexts

/-! ## §1. The processor. -/

/-- The registers that the interrupt path saves. -/
structure Cpu where
  eax : Nat
  ebx : Nat
  ecx : Nat
  edx : Nat
  esi : Nat
  edi : Nat
  ebp : Nat
  esp : Nat
  eip : Nat
  cs : Nat
  eflags : Nat

/-- 32-bit registers. -/
structure Cpu.Words (c : Cpu) : Prop where
  eax : c.eax < 2 ^ 32
  ebx : c.ebx < 2 ^ 32
  ecx : c.ecx < 2 ^ 32
  edx : c.edx < 2 ^ 32
  esi : c.esi < 2 ^ 32
  edi : c.edi < 2 ^ 32
  ebp : c.ebp < 2 ^ 32
  esp : c.esp < 2 ^ 32
  eip : c.eip < 2 ^ 32
  cs : c.cs < 2 ^ 32
  eflags : c.eflags < 2 ^ 32

structure Machine where
  cpu : Cpu
  mem : Mem

/-- `pushl v`. -/
def pushl (v : Nat) (s : Machine) : Machine :=
  let stack := push (s.mem, s.cpu.esp) v
  ⟨{ s.cpu with esp := stack.2 }, stack.1⟩

/-- `popl r`, where `set` writes `r`. -/
def popl (set : Cpu → Nat → Cpu) (s : Machine) : Machine :=
  ⟨set { s.cpu with esp := add32 s.cpu.esp 4 } (readWord s.mem s.cpu.esp), s.mem⟩

/-- What the processor pushes for an interrupt of the ring that is running. -/
def deliver (errorCode : Option Nat) (s : Machine) : Machine :=
  let s := pushl s.cpu.eip (pushl s.cpu.cs (pushl s.cpu.eflags s))
  match errorCode with
  | none => s
  | some e => pushl e s

def iret (s : Machine) : Machine :=
  let s := popl (fun c v => { c with eip := v }) s
  let s := popl (fun c v => { c with cs := v }) s
  popl (fun c v => { c with eflags := v }) s

/-! ## §2. The stubs. -/

/-- The entry points of interruptstubs.s. -/
inductive Stub
  | HandleException (num : Nat)
  | HandleInterruptRequest (num : Nat)
  | InterruptIgnore
  deriving DecidableEq, Repr

/-- `.set IRQ_BASE, 0x20`. -/
def IRQ_BASE : Nat := 0x20

/-- The byte that the stub leaves in `interruptnumber`. -/
def Stub.interruptnumber : Stub → Nat
  | .HandleException num => num % 256
  | .HandleInterruptRequest num => (num + IRQ_BASE) % 256
  | .InterruptIgnore => 0

/-- "save registers". -/
def saveRegisters (s : Machine) : Machine :=
  let s := pushl s.cpu.ebp s
  let s := pushl s.cpu.edi s
  let s := pushl s.cpu.esi s
  let s := pushl s.cpu.edx s
  let s := pushl s.cpu.ecx s
  let s := pushl s.cpu.ebx s
  pushl s.cpu.eax s

/-- "call C++ Handler": the two arguments and the return address. -/
def callHandler (interruptnumber returnAddress : Nat) (s : Machine) : Machine :=
  pushl returnAddress (pushl interruptnumber (pushl s.cpu.esp s))

/-- "restore registers" from the stack at `esp`, to the end of `int_bottom`. -/
def restoreRegisters (esp : Nat) (s : Machine) : Machine :=
  let s : Machine := ⟨{ s.cpu with esp := esp }, s.mem⟩
  let s := popl (fun c v => { c with eax := v }) s
  let s := popl (fun c v => { c with ebx := v }) s
  let s := popl (fun c v => { c with ecx := v }) s
  let s := popl (fun c v => { c with edx := v }) s
  let s := popl (fun c v => { c with esi := v }) s
  let s := popl (fun c v => { c with edi := v }) s
  let s := popl (fun c v => { c with ebp := v }) s
  iret ⟨{ s.cpu with esp := add32 s.cpu.esp 4 }, s.mem⟩

/-- The C++ handler: from the number, the pointer and the memory to its answer and the memory. -/
abbrev Handler := Nat → Nat → Mem → Nat × Mem

def int_bottom (handler : Handler) (interruptnumber returnAddress : Nat) (s : Machine) : Machine :=
  let s := saveRegisters s
  let called := callHandler interruptnumber returnAddress s
  let (esp, mem) := handler interruptnumber s.cpu.esp called.mem
  restoreRegisters esp ⟨called.cpu, mem⟩

/-- From the entry of a stub to the end of its `iret`. -/
def Stub.run (handler : Handler) (returnAddress : Nat) (stub : Stub) (s : Machine) : Machine :=
  match stub with
  | .HandleException _ => int_bottom handler stub.interruptnumber returnAddress s
  | .HandleInterruptRequest _ => int_bottom handler stub.interruptnumber returnAddress (pushl 0 s)
  | .InterruptIgnore => iret s

/-! ## §3. The frame that is loaded. -/

/-- The registers in the frame at `c`. -/
def loadCpu (m : Mem) (c : Nat) : Cpu where
  eax := getReg m c .eax
  ebx := getReg m c .ebx
  ecx := getReg m c .ecx
  edx := getReg m c .edx
  esi := getReg m c .esi
  edi := getReg m c .edi
  ebp := getReg m c .ebp
  esp := add32 c 44
  eip := getReg m c .eip
  cs := getReg m c .cs
  eflags := getReg m c .eflags

theorem add32_add32 (a i j : Nat) : add32 (add32 a i) j = add32 a (i + j) := by
  unfold add32
  omega

/-- **The stub leaves the registers of the frame at the handler's answer.** -/
theorem restore_eq {esp : Nat} (h : esp < 2 ^ 32) (s : Machine) :
    restoreRegisters esp s = ⟨loadCpu s.mem esp, s.mem⟩ := by
  have h0 : add32 esp 0 = esp := add32_eq h
  unfold restoreRegisters iret popl loadCpu getReg
  simp only [add32_add32, Reg.offset, Nat.reduceAdd, h0]

/-! ## §4. The frame that is made. -/

/-- The registers in the order in which `int_bottom` pushes them. -/
def registerWords (c : Cpu) : List Nat := [c.ebp, c.edi, c.esi, c.edx, c.ecx, c.ebx, c.eax]

/-- The words of a `CPUState` that are pushed before them, with `error` in its place. -/
def headWords (c : Cpu) (error : Nat) : List Nat := [c.eflags, c.cs, c.eip, error]

/-- The machine after the words `w` were pushed. -/
def pushes (s : Machine) (w : List Nat) : Machine :=
  ⟨{ s.cpu with esp := (pushAll (s.mem, s.cpu.esp) w).2 }, (pushAll (s.mem, s.cpu.esp) w).1⟩

/-- The pointer that `int_bottom` hands to the handler when `w` is what was pushed before. -/
def framePointer (s : Machine) (w : List Nat) : Nat :=
  (pushAll (s.mem, s.cpu.esp) (w ++ registerWords s.cpu)).2

/-- The memory that the handler is called with. -/
def handlerMem (s : Machine) (w : List Nat) (interruptnumber returnAddress : Nat) : Mem :=
  (pushAll (s.mem, s.cpu.esp) (w ++ registerWords s.cpu ++
    [framePointer s w, interruptnumber, returnAddress])).1

variable {s : Machine} {w : List Nat} {error n r : Nat} {handler : Handler}

theorem pushl_pushes (s : Machine) (w : List Nat) (v : Nat) :
    pushl v (pushes s w) = pushes s (w ++ [v]) := by
  unfold pushes pushl
  simp only [pushAll_append, pushAll_cons, pushAll_nil]

/-- What processor and stub push before `int_bottom`. -/
theorem deliver_eq (s : Machine) (errorCode : Option Nat) :
    deliver errorCode s
      = pushes s ([s.cpu.eflags, s.cpu.cs, s.cpu.eip] ++ errorCode.toList) := by
  have hpushed : pushl s.cpu.eip (pushl s.cpu.cs (pushl s.cpu.eflags (pushes s [])))
      = pushes s [s.cpu.eflags, s.cpu.cs, s.cpu.eip] := by
    simp only [pushl_pushes, List.nil_append, List.cons_append]
  cases errorCode with
  | none => exact hpushed
  | some e => exact (congrArg (pushl e) hpushed).trans (pushl_pushes s _ e)

theorem saveRegisters_eq (s : Machine) (w : List Nat) :
    saveRegisters (pushes s w) = pushes s (w ++ registerWords s.cpu) := by
  unfold saveRegisters
  simp only [pushl_pushes, List.append_assoc, List.cons_append, List.nil_append]
  rfl

/-- The answer of the handler decides which frame is loaded. -/
theorem int_bottom_eq (handler : Handler) (n r : Nat) (s : Machine) (w : List Nat) :
    ∃ cpu, int_bottom handler n r (pushes s w) =
      restoreRegisters (handler n (framePointer s w) (handlerMem s w n r)).1
        ⟨cpu, (handler n (framePointer s w) (handlerMem s w n r)).2⟩ := by
  have hcall : callHandler n r (pushes s (w ++ registerWords s.cpu))
      = pushes s (w ++ registerWords s.cpu ++ [framePointer s w, n, r]) := by
    unfold callHandler
    simp only [pushl_pushes, List.append_assoc, List.cons_append, List.nil_append]
    rfl
  have hesp : (pushes s (w ++ registerWords s.cpu)).cpu.esp = framePointer s w := rfl
  have hmem : (pushes s (w ++ registerWords s.cpu ++ [framePointer s w, n, r])).mem
      = handlerMem s w n r := by rw [pushes, handlerMem]
  refine ⟨(pushes s (w ++ registerWords s.cpu ++ [framePointer s w, n, r])).cpu, ?_⟩
  unfold int_bottom
  simp only
  rw [saveRegisters_eq, hcall, hesp, hmem]

theorem framePointer_eq (room : 4 * w.length + 28 ≤ s.cpu.esp) (hesp : s.cpu.esp < 2 ^ 32) :
    framePointer s w = s.cpu.esp - (4 * w.length + 28) := by
  have hlen : (w ++ registerWords s.cpu).length = w.length + 7 := List.length_append
  have hpointer := pushAll_pointer (s := (s.mem, s.cpu.esp)) (w := w ++ registerWords s.cpu)
    (by rw [hlen]; show 4 * (w.length + 7) ≤ s.cpu.esp; omega) hesp
  rw [hlen] at hpointer
  exact hpointer

/-- The pushes stay below the interrupted stack pointer. -/
theorem handlerMem_of_out (room : 4 * w.length + 40 ≤ s.cpu.esp) (hesp : s.cpu.esp < 2 ^ 32)
    {x : Nat} (hx : x < s.cpu.esp - (4 * w.length + 40) ∨ s.cpu.esp ≤ x) :
    handlerMem s w n r x = s.mem x := by
  have hlen : (w ++ registerWords s.cpu ++ [framePointer s w, n, r]).length = w.length + 10 := by
    rw [List.length_append, List.length_append]
    rfl
  apply pushAll_of_out (s := (s.mem, s.cpu.esp)) (by rw [hlen]; show _ ≤ s.cpu.esp; omega) hesp
  rw [hlen]
  show x < s.cpu.esp - 4 * (w.length + 10) ∨ s.cpu.esp ≤ x
  omega

/-- **The frame holds the interrupted registers.** -/
theorem interruptFrame_load (hw : s.cpu.Words) (room : 56 ≤ s.cpu.esp) :
    loadCpu (handlerMem s (headWords s.cpu error) n r) (framePointer s (headWords s.cpu error))
      = s.cpu := by
  have hesp := hw.esp
  have hword : ∀ {i : Nat} {v : Nat}, v < 2 ^ 32 →
      (headWords s.cpu error ++ registerWords s.cpu ++
        [framePointer s (headWords s.cpu error), n, r])[i]? = some v →
      readWord (handlerMem s (headWords s.cpu error) n r) (s.cpu.esp - 4 * (i + 1)) = v := by
    intro i v hv heq
    obtain ⟨hi, heq⟩ := List.getElem?_eq_some_iff.mp heq
    have hread := pushAll_word (s := (s.mem, s.cpu.esp)) (w := headWords s.cpu error ++
      registerWords s.cpu ++ [framePointer s (headWords s.cpu error), n, r]) room hesp hi
      (by rw [heq]; exact hv)
    rw [heq] at hread
    exact hread
  have hreg : ∀ (g : Reg) {i v : Nat}, s.cpu.esp - 44 + g.offset = s.cpu.esp - 4 * (i + 1) →
      g.offset ≤ 40 → v < 2 ^ 32 → (headWords s.cpu error ++ registerWords s.cpu ++
        [framePointer s (headWords s.cpu error), n, r])[i]? = some v →
      getReg (handlerMem s (headWords s.cpu error) n r) (s.cpu.esp - 44) g = v := by
    intro g i v heq hoff hv hget
    unfold getReg
    rw [add32_eq (by omega), heq]
    exact hword hv hget
  have hpointer : framePointer s (headWords s.cpu error) = s.cpu.esp - 44 :=
    framePointer_eq (w := headWords s.cpu error) (by show 4 * 4 + 28 ≤ s.cpu.esp; omega) hesp
  rw [hpointer]
  unfold loadCpu
  rw [hreg .eax (i := 10) (by simp only [Reg.offset]; omega) (by decide) hw.eax rfl,
    hreg .ebx (i := 9) (by simp only [Reg.offset]; omega) (by decide) hw.ebx rfl,
    hreg .ecx (i := 8) (by simp only [Reg.offset]; omega) (by decide) hw.ecx rfl,
    hreg .edx (i := 7) (by simp only [Reg.offset]; omega) (by decide) hw.edx rfl,
    hreg .esi (i := 6) (by simp only [Reg.offset]; omega) (by decide) hw.esi rfl,
    hreg .edi (i := 5) (by simp only [Reg.offset]; omega) (by decide) hw.edi rfl,
    hreg .ebp (i := 4) (by simp only [Reg.offset]; omega) (by decide) hw.ebp rfl,
    hreg .eip (i := 2) (by simp only [Reg.offset]; omega) (by decide) hw.eip rfl,
    hreg .cs (i := 1) (by simp only [Reg.offset]; omega) (by decide) hw.cs rfl,
    hreg .eflags (i := 0) (by simp only [Reg.offset]; omega) (by decide) hw.eflags rfl,
    add32_eq (by omega), Nat.sub_add_cancel (by omega)]

/-! ## §5. Which vectors resume. -/

/-- The handler answers the pointer that it was given and leaves the frame and what is above it. -/
def Transparent (handler : Handler) : Prop :=
  ∀ n c m, (handler n c m).1 = c ∧ ∀ x, c ≤ x → (handler n c m).2 x = m x

/-- The words pushed are those of a `CPUState`, or just those that `iret` takes. -/
def Stub.Aligned : Stub → Option Nat → Prop
  | .HandleException _, errorCode => errorCode.isSome = true
  | .HandleInterruptRequest _, errorCode => errorCode = none
  | .InterruptIgnore, errorCode => errorCode = none

theorem loadCpu_congr {m m' : Mem} {c : Nat} (hc : c + 44 ≤ 2 ^ 32)
    (h : ∀ x, c ≤ x → x < c + 44 → m' x = m x) : loadCpu m' c = loadCpu m c := by
  have hreg : ∀ g : Reg, g.offset ≤ 40 → getReg m' c g = getReg m c g := by
    intro g hoff
    unfold getReg
    rw [add32_eq (by omega)]
    exact readWord_congr fun x hx hx' => h x (by omega) (by omega)
  unfold loadCpu
  rw [hreg .eax (by decide), hreg .ebx (by decide), hreg .ecx (by decide), hreg .edx (by decide),
    hreg .esi (by decide), hreg .edi (by decide), hreg .ebp (by decide), hreg .eip (by decide),
    hreg .cs (by decide), hreg .eflags (by decide)]

/-- **The registers are those of the frame at the handler's answer.** -/
theorem int_bottom_load {c : Nat} {m : Mem}
    (h : handler n (framePointer s w) (handlerMem s w n r) = (c, m)) (hc : c < 2 ^ 32) :
    int_bottom handler n r (pushes s w) = ⟨loadCpu m c, m⟩ := by
  obtain ⟨cpu, heq⟩ := int_bottom_eq handler n r s w
  rw [heq, h, restore_eq hc]

section Transparent

variable (hh : Transparent handler) (hw : s.cpu.Words) (room : 60 ≤ s.cpu.esp)

include hh hw room

/-- After too few or too many words the stack pointer is not the interrupted one. -/
theorem int_bottom_misses (hlen : w.length ≤ 5) (hne : w.length ≠ 4) :
    (int_bottom handler n r (pushes s w)).cpu ≠ s.cpu := by
  have hesp := hw.esp
  have hpointer : framePointer s w = s.cpu.esp - (4 * w.length + 28) :=
    framePointer_eq (by omega) hesp
  have hsame := (hh n (framePointer s w) (handlerMem s w n r)).1
  have hload := int_bottom_load (c := framePointer s w) (Prod.ext hsame rfl)
    (by rw [hpointer]; omega)
  intro heq
  have hmoved : add32 (framePointer s w) 44 = s.cpu.esp := by
    rw [← congrArg Cpu.esp heq, hload]
    rfl
  rw [hpointer] at hmoved
  unfold add32 at hmoved
  omega

/-- After the words of a `CPUState` the registers are back. -/
theorem int_bottom_hits (error : Nat) :
    (int_bottom handler n r (pushes s (headWords s.cpu error))).cpu = s.cpu := by
  have hesp := hw.esp
  have hpointer : framePointer s (headWords s.cpu error) = s.cpu.esp - 44 :=
    framePointer_eq (w := headWords s.cpu error) (by show 4 * 4 + 28 ≤ s.cpu.esp; omega) hesp
  have htransparent := hh n (framePointer s (headWords s.cpu error))
    (handlerMem s (headWords s.cpu error) n r)
  have hanswer : handler n (framePointer s (headWords s.cpu error))
      (handlerMem s (headWords s.cpu error) n r) = (_, _) := rfl
  have hload := int_bottom_load hanswer (by rw [htransparent.1, hpointer]; omega)
  rw [hload]
  simp only
  rw [htransparent.1]
  rw [loadCpu_congr (by rw [hpointer]; omega) fun x hx _ => htransparent.2 x hx]
  exact interruptFrame_load hw (by omega)

end Transparent

/-- `iret` takes three words. -/
theorem iret_eq (s : Machine) : iret s = ⟨{ s.cpu with
    esp := add32 s.cpu.esp 12
    eip := readWord s.mem s.cpu.esp
    cs := readWord s.mem (add32 s.cpu.esp 4)
    eflags := readWord s.mem (add32 s.cpu.esp 8) }, s.mem⟩ := by
  unfold iret popl
  simp only [add32_add32, Nat.reduceAdd]

theorem iret_pushes (hw : s.cpu.Words) (room : 60 ≤ s.cpu.esp) (errorCode : Option Nat) :
    (iret (deliver errorCode s)).cpu = s.cpu ↔ errorCode = none := by
  have hesp := hw.esp
  have hlen : ([s.cpu.eflags, s.cpu.cs, s.cpu.eip] ++ errorCode.toList).length
      = 3 + errorCode.toList.length := List.length_append
  have hpointer := pushAll_pointer (s := (s.mem, s.cpu.esp))
    (w := [s.cpu.eflags, s.cpu.cs, s.cpu.eip] ++ errorCode.toList)
    (by cases errorCode <;> simp <;> omega) hesp
  have hword : ∀ {i v : Nat}, v < 2 ^ 32 →
      ([s.cpu.eflags, s.cpu.cs, s.cpu.eip] ++ errorCode.toList)[i]? = some v →
      readWord (pushAll (s.mem, s.cpu.esp)
        ([s.cpu.eflags, s.cpu.cs, s.cpu.eip] ++ errorCode.toList)).1
        (s.cpu.esp - 4 * (i + 1)) = v := by
    intro i v hv heq
    obtain ⟨hi, heq⟩ := List.getElem?_eq_some_iff.mp heq
    have hread := pushAll_word (s := (s.mem, s.cpu.esp))
      (w := [s.cpu.eflags, s.cpu.cs, s.cpu.eip] ++ errorCode.toList)
      (by cases errorCode <;> simp <;> omega) hesp hi (by rw [heq]; exact hv)
    rw [heq] at hread
    exact hread
  have h0 := hword (i := 0) hw.eflags rfl
  have h1 := hword (i := 1) hw.cs rfl
  have h2 := hword (i := 2) hw.eip rfl
  rw [deliver_eq, iret_eq]
  unfold pushes
  generalize pushAll (s.mem, s.cpu.esp) ([s.cpu.eflags, s.cpu.cs, s.cpu.eip] ++ errorCode.toList)
    = stack at *
  simp only at hpointer ⊢
  rw [hlen] at hpointer
  cases errorCode with
  | none =>
    have hpointer : stack.2 = s.cpu.esp - 12 := hpointer
    refine iff_of_true ?_ rfl
    rw [hpointer, add32_eq (by omega), add32_eq (by omega), add32_eq (by omega),
      show s.cpu.esp - 12 + 8 = s.cpu.esp - 4 * (0 + 1) by omega, h0,
      show s.cpu.esp - 12 + 4 = s.cpu.esp - 4 * (1 + 1) by omega, h1,
      show s.cpu.esp - 12 = s.cpu.esp - 4 * (2 + 1) by omega, h2,
      show s.cpu.esp - 4 * (2 + 1) + 12 = s.cpu.esp by omega]
  | some e =>
    have hpointer : stack.2 = s.cpu.esp - 16 := hpointer
    refine iff_of_false (fun heq => ?_) (by simp)
    have hmoved : add32 stack.2 12 = s.cpu.esp := congrArg Cpu.esp heq
    rw [hpointer] at hmoved
    unfold add32 at hmoved
    omega

/-- **The interrupted code goes on exactly when the pushed words are aligned**, for every stub, with
    and without an error code, around a handler that answers the pointer it was given. -/
theorem resumes_iff (handler : Handler) (r : Nat) (stub : Stub) (errorCode : Option Nat)
    (s : Machine) (hh : Transparent handler) (hw : s.cpu.Words) (room : 60 ≤ s.cpu.esp) :
    (stub.run handler r (deliver errorCode s)).cpu = s.cpu ↔ stub.Aligned errorCode := by
  cases stub with
  | HandleException num =>
    unfold Stub.run
    simp only
    rw [deliver_eq]
    cases errorCode with
    | none =>
      exact iff_of_false (int_bottom_misses hh hw room (w := [_, _, _]) (by simp) (by simp))
        (by simp [Stub.Aligned])
    | some e => exact iff_of_true (int_bottom_hits hh hw room e) rfl
  | HandleInterruptRequest num =>
    unfold Stub.run
    simp only
    rw [deliver_eq, pushl_pushes]
    cases errorCode with
    | none => exact iff_of_true (int_bottom_hits hh hw room 0) rfl
    | some e =>
      exact iff_of_false (int_bottom_misses hh hw room (w := [_, _, _, _, _]) (by simp) (by simp))
        (by simp [Stub.Aligned])
  | InterruptIgnore => exact iret_pushes hw room errorCode

/-- A breakpoint has no error code: its handler does not return to the code behind it. -/
theorem breakpoint_not_resumed :
    ((Stub.HandleException 3).run (fun _ c m => (c, m)) 0
        (deliver none ⟨⟨0, 0, 0, 0, 0, 0, 0, 0x200FF8, 0x100000, 16, 0x202⟩, fun _ => 0⟩)).cpu
        = ⟨0, 0, 0, 0, 0, 0, 0, 0x200FF8, 0x100000, 16, 0x202⟩ ↔
      (Stub.HandleException 3).Aligned none :=
  resumes_iff (fun _ c m => (c, m)) 0 (.HandleException 3) none
    ⟨⟨0, 0, 0, 0, 0, 0, 0, 0x200FF8, 0x100000, 16, 0x202⟩, fun _ => 0⟩ (fun _ _ _ => ⟨rfl, fun _ _ => rfl⟩)
    (by constructor <;> decide) (by decide)

end SystemOS.Kernel.InterruptStubs
