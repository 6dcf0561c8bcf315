/-
  SystemOS.Kernel.InterruptTable — the interrupt descriptor table and the table of handlers.

  The constructor of `InterruptManager` fills all 256 gates: first with `InterruptIgnore`, then with
  the stubs of the exceptions, of the sixteen lines of the interrupt controllers, which follow the
  offset that it is given, and of the system call.  The stubs count from `IRQ_BASE`, whatever the
  offset is.

  Main results:
    * `gate_offset`       — the processor reads back from a gate the address that was stored.
    * `constructed_gate`  — which stub each of the 256 vectors leads to, for every offset.
    * `registered_newest` — what an entry of `handlers` points to after any constructions and
      destructions of handlers.
    * `kernel_dispatch`   — the handlers of `kernelMain` are those that the kernel's runs have.
-/
import SystemOS.Kernel.Console
import SystemOS.Kernel.InterruptStubs
import SystemOS.Lib.RegisterFile
import SystemOS.Lib.Transition
import SystemOS.Lib.Words

namespace SystemOS.Kernel.InterruptTable

open SystemOS.Kernel.Console SystemOS.Kernel.InterruptStubs SystemOS.Kernel.Multitasking
open SystemOS.Lib.RegisterFile SystemOS.Lib.Words

/-! ## §1. Gates. -/

structure GateDescriptor where
  handlerAddressLowBits : UInt16
  gdt_codeSegmentSelector : UInt16
  reserved : UInt8
  access : UInt8
  handlerAddressHighBits : UInt16

def IDT_DESC_PRESENT : UInt8 := 0x80

def IDT_INTERRUPT_GATE : UInt8 := 0xE

/-- The entry that `SetInterruptDescriptorTableEntry` stores. -/
def gate (CodeSegment : UInt16) (handler : UInt32) (DescriptorPrivilegeLevel DescriptorType : UInt8) :
    GateDescriptor where
  handlerAddressLowBits := (handler &&& 0xFFFF).toUInt16
  handlerAddressHighBits := ((handler >>> 16) &&& 0xFFFF).toUInt16
  gdt_codeSegmentSelector := CodeSegment
  access := IDT_DESC_PRESENT ||| ((DescriptorPrivilegeLevel &&& 3) <<< 5) ||| DescriptorType
  reserved := 0

/-- Where the processor goes on. -/
def GateDescriptor.offset (g : GateDescriptor) : UInt32 :=
  (g.handlerAddressHighBits.toUInt32 <<< 16) ||| g.handlerAddressLowBits.toUInt32

def GateDescriptor.present (g : GateDescriptor) : Bool := g.access &&& 0x80 != 0

/-- Type 14 of five bits: a 32-bit gate behind which interrupts are off. -/
def GateDescriptor.isInterruptGate (g : GateDescriptor) : Bool := g.access &&& 0x1F == 0x0E

/-- The processor reads back the address. -/
theorem gate_offset (CodeSegment : UInt16) (handler : UInt32) (level type : UInt8) :
    (gate CodeSegment handler level type).offset = handler := by
  have hlow : ((handler &&& 0xFFFF).toUInt16).toUInt32.toNat = handler.toNat % 2 ^ 16 := by
    rw [UInt16.toNat_toUInt32, UInt32.toNat_toUInt16, UInt32.toNat_and]
    show (handler.toNat &&& (2 ^ 16 - 1)) % 2 ^ 16 = _
    rw [Nat.and_two_pow_sub_one_eq_mod, Nat.mod_mod]
  have hhigh : (((handler >>> 16) &&& 0xFFFF).toUInt16).toUInt32.toNat = handler.toNat / 2 ^ 16 := by
    have hlt := handler.toNat_lt
    rw [UInt16.toNat_toUInt32, UInt32.toNat_toUInt16, UInt32.toNat_and, UInt32.toNat_shiftRight]
    show (handler.toNat >>> 16 &&& (2 ^ 16 - 1)) % 2 ^ 16 = _
    rw [Nat.and_two_pow_sub_one_eq_mod, Nat.mod_mod, Nat.shiftRight_eq_div_pow]
    omega
  apply UInt32.toNat_inj.mp
  show ((((handler >>> 16) &&& 0xFFFF).toUInt16).toUInt32 <<< 16
    ||| ((handler &&& 0xFFFF).toUInt16).toUInt32).toNat = handler.toNat
  rw [UInt32.toNat_or, UInt32.toNat_shiftLeft, hhigh, hlow]
  have hlt := handler.toNat_lt
  have hmod : handler.toNat / 2 ^ 16 * 2 ^ 16 % 2 ^ 32 = handler.toNat / 2 ^ 16 * 2 ^ 16 :=
    Nat.mod_eq_of_lt (by omega)
  show (handler.toNat / 2 ^ 16) <<< 16 % 2 ^ 32 ||| handler.toNat % 2 ^ 16 = handler.toNat
  rw [Nat.shiftLeft_eq, hmod, ← Nat.shiftLeft_eq, Nat.or_comm,
    or_shift _ (Nat.mod_lt _ (Nat.two_pow_pos 16))]
  omega

/-! ## §2. The constructor. -/

/-- The handlers' objects are addresses; 0 is no handler. -/
structure InterruptManager where
  hardwareInterruptOffset : UInt16
  interruptDescriptorTable : UInt8 → GateDescriptor
  handlers : UInt8 → Nat

/-- The gates that the constructor sets, in its order. -/
def gates (hardwareInterruptOffset : UInt16) : List (UInt8 × Stub) :=
  (List.range 255).map (fun i => (UInt8.ofNat (255 - i), .InterruptIgnore)) ++
    [(0, .InterruptIgnore)] ++
    (List.range 0x14).map (fun i => (UInt8.ofNat i, .HandleException i)) ++
    (List.range 0x10).map
      (fun i => (UInt8.ofNat (hardwareInterruptOffset.toNat + i), .HandleInterruptRequest i)) ++
    [(0x80, .HandleInterruptRequest 0x80)]

/-- `SetInterruptDescriptorTableEntry` for each of them, with the stubs at the addresses `code`. -/
def setGates (code : Stub → UInt32) (table : UInt8 → GateDescriptor)
    (entries : List (UInt8 × Stub)) : UInt8 → GateDescriptor :=
  writeAll table (entries.map fun e =>
    (e.1, gate (UInt16.ofNat CodeSegmentSelector) (code e.2) 0 IDT_INTERRUPT_GATE))

/-- `InterruptManager::InterruptManager`, as far as it writes memory. -/
def InterruptManager.construct (code : Stub → UInt32) (hardwareInterruptOffset : UInt16)
    (table : UInt8 → GateDescriptor) : InterruptManager where
  hardwareInterruptOffset := hardwareInterruptOffset
  interruptDescriptorTable := setGates code table (gates hardwareInterruptOffset)
  handlers := fun _ => 0

/-- The stub that a vector leads to. -/
def vectorStub (hardwareInterruptOffset : UInt16) (v : UInt8) : Stub :=
  if v = 0x80 then .HandleInterruptRequest 0x80
  else if (v.toNat + 256 - hardwareInterruptOffset.toNat % 256) % 256 < 0x10 then
    .HandleInterruptRequest ((v.toNat + 256 - hardwareInterruptOffset.toNat % 256) % 256)
  else if v.toNat < 0x14 then .HandleException v.toNat
  else .InterruptIgnore

variable {code : Stub → UInt32} {table : UInt8 → GateDescriptor} {v : UInt8} {o : UInt16}

theorem setGates_append (es fs : List (UInt8 × Stub)) :
    setGates code table (es ++ fs) = setGates code (setGates code table es) fs := by
  unfold setGates
  rw [List.map_append, writeAll_append]

theorem setGates_of_ne {es : List (UInt8 × Stub)} (h : ∀ e ∈ es, e.1 ≠ v) :
    setGates code table es v = table v := by
  refine writeAll_of_ne ?_
  intro w hw
  obtain ⟨e, he, rfl⟩ := List.mem_map.mp hw
  exact h e he

theorem setGates_of_mem {es : List (UInt8 × Stub)} {stub : Stub} (h : (v, stub) ∈ es)
    (hagree : ∀ e ∈ es, e.1 = v → e.2 = stub) : setGates code table es v
      = gate (UInt16.ofNat CodeSegmentSelector) (code stub) 0 IDT_INTERRUPT_GATE := by
  refine writeAll_of_mem (List.mem_map.mpr ⟨_, h, rfl⟩) ?_
  intro w hw heq
  obtain ⟨e, he, rfl⟩ := List.mem_map.mp hw
  rw [hagree e he heq]

/-- The gates of the lines. -/
theorem line_eq_iff (i : Nat) (hi : i < 0x10) : UInt8.ofNat (o.toNat + i) = v ↔
    i = (v.toNat + 256 - o.toNat % 256) % 256 := by
  have hv : v.toNat < 256 := v.toNat_lt
  have hvector : (UInt8.ofNat (o.toNat + i)).toNat = (o.toNat + i) % 256 := UInt8.toNat_ofNat'
  rw [← UInt8.toNat_inj, hvector]
  generalize v.toNat = n at hv ⊢
  generalize o.toNat = offset
  omega

theorem construct_gate (code : Stub → UInt32) (table : UInt8 → GateDescriptor) (o : UInt16)
    (v : UInt8) : (InterruptManager.construct code o table).interruptDescriptorTable v
      = gate (UInt16.ofNat CodeSegmentSelector) (code (vectorStub o v)) 0 IDT_INTERRUPT_GATE := by
  unfold InterruptManager.construct gates vectorStub
  simp only
  rw [setGates_append]
  by_cases h80 : v = 0x80
  · subst h80
    rw [if_pos rfl]
    exact setGates_of_mem List.mem_cons_self (by simp)
  · rw [if_neg h80, setGates_of_ne (by simpa using Ne.symm h80), setGates_append]
    by_cases hline : (v.toNat + 256 - o.toNat % 256) % 256 < 0x10
    · rw [if_pos hline]
      refine setGates_of_mem (List.mem_map.mpr ⟨_, List.mem_range.mpr hline, ?_⟩) ?_
      · rw [(line_eq_iff _ hline).mpr rfl]
      · intro e he heq
        obtain ⟨i, hi, rfl⟩ := List.mem_map.mp he
        rw [(line_eq_iff i (List.mem_range.mp hi)).mp heq]
    · rw [if_neg hline, setGates_append, setGates_of_ne]
      · by_cases hexception : v.toNat < 0x14
        · rw [if_pos hexception]
          refine setGates_of_mem (List.mem_map.mpr ⟨_, List.mem_range.mpr hexception, ?_⟩) ?_
          · rw [UInt8.ofNat_toNat]
          · intro e he heq
            obtain ⟨i, hi, rfl⟩ := List.mem_map.mp he
            have hi := List.mem_range.mp hi
            have hnat := congrArg UInt8.toNat heq
            simp only [UInt8.toNat_ofNat'] at hnat
            rw [show i = v.toNat by omega]
        · rw [if_neg hexception, setGates_of_ne]
          · refine setGates_of_mem ?_ ?_
            · rw [List.mem_append]
              by_cases hzero : v = 0
              · exact .inr (by rw [hzero]; exact List.mem_cons_self)
              · refine .inl (List.mem_map.mpr ⟨255 - v.toNat, ?_, ?_⟩)
                · have hpos : v.toNat ≠ 0 := fun h => hzero (UInt8.toNat_inj.mp h)
                  exact List.mem_range.mpr (by omega)
                · have hv := v.toNat_lt
                  rw [show 255 - (255 - v.toNat) = v.toNat by omega, UInt8.ofNat_toNat]
            · intro e he _
              rcases List.mem_append.mp he with he | he
              · obtain ⟨i, _, rfl⟩ := List.mem_map.mp he
                rfl
              · rw [List.mem_singleton.mp he]
          · intro e he heq
            obtain ⟨i, hi, rfl⟩ := List.mem_map.mp he
            have hi := List.mem_range.mp hi
            have hnat := congrArg UInt8.toNat heq
            simp only [UInt8.toNat_ofNat'] at hnat
            omega
      · intro e he heq
        obtain ⟨i, hi, rfl⟩ := List.mem_map.mp he
        have hi := List.mem_range.mp hi
        rw [line_eq_iff i hi] at heq
        omega

/-- **Every vector leads to its stub**, whatever the table held before. -/
theorem constructed_gate (code : Stub → UInt32) (table : UInt8 → GateDescriptor) (o : UInt16)
    (v : UInt8) :
    let g := (InterruptManager.construct code o table).interruptDescriptorTable v
    g.offset = code (vectorStub o v) ∧ g.present = true ∧ g.isInterruptGate = true ∧
      g.gdt_codeSegmentSelector = UInt16.ofNat CodeSegmentSelector := by
  intro g
  have hgate : g = gate (UInt16.ofNat CodeSegmentSelector) (code (vectorStub o v)) 0
      IDT_INTERRUPT_GATE := construct_gate code table o v
  rw [hgate, gate_offset]
  have haccess : IDT_DESC_PRESENT ||| (((0 : UInt8) &&& 3) <<< 5) ||| IDT_INTERRUPT_GATE = 0x8E := by decide
  refine ⟨rfl, ?_, ?_, rfl⟩
  · show ((IDT_DESC_PRESENT ||| (((0 : UInt8) &&& 3) <<< 5) ||| IDT_INTERRUPT_GATE) &&& 0x80 != 0) = true
    rw [haccess]
    decide
  · show ((IDT_DESC_PRESENT ||| (((0 : UInt8) &&& 3) <<< 5) ||| IDT_INTERRUPT_GATE) &&& 0x1F == 0x0E) = true
    rw [haccess]
    decide

/-! ## §3. Handlers. -/

/-- `InterruptHandler::InterruptHandler` of the object `this`. -/
def InterruptManager.addHandler (m : InterruptManager) (this : Nat) (InterruptNumber : UInt8) :
    InterruptManager :=
  { m with handlers := Function.update m.handlers InterruptNumber this }

/-- `InterruptHandler::~InterruptHandler`. -/
def InterruptManager.removeHandler (m : InterruptManager) (this : Nat) (InterruptNumber : UInt8) :
    InterruptManager :=
  if m.handlers InterruptNumber = this then
    { m with handlers := Function.update m.handlers InterruptNumber 0 }
  else m

/-- What `DoHandleInterrupt` does: the object that it calls, what it prints, whether it calls
    `Schedule`, and the bytes that it writes to ports. -/
structure Reaction where
  called : Option Nat
  printed : Text
  scheduled : Bool
  writes : List (UInt16 × UInt8)

def MasterCommandPort : UInt16 := 0x20
def MasterDataPort : UInt16 := 0x21
def SlaveCommandPort : UInt16 := 0xA0
def SlaveDataPort : UInt16 := 0xA1

def InterruptManager.DoHandleInterrupt (m : InterruptManager) (interrupt : UInt8) : Reaction where
  called := if m.handlers interrupt ≠ 0 then some (m.handlers interrupt) else none
  printed :=
    if m.handlers interrupt = 0 ∧ interrupt.toNat ≠ m.hardwareInterruptOffset.toNat then
      text "UNHANDLED INTERRUPT 0x" ++ printfHex interrupt
    else []
  scheduled := interrupt.toNat == m.hardwareInterruptOffset.toNat
  writes :=
    if m.hardwareInterruptOffset.toNat ≤ interrupt.toNat ∧
        interrupt.toNat < m.hardwareInterruptOffset.toNat + 16 then
      (MasterCommandPort, 0x20) ::
        if m.hardwareInterruptOffset.toNat + 8 ≤ interrupt.toNat then [(SlaveCommandPort, 0x20)] else []
    else []

/-- A handler object: its address and its `InterruptNumber`. -/
abbrev HandlerObject := Nat × UInt8

/-- The table with the handlers that exist and all that were constructed, newest first. -/
structure Registry where
  manager : InterruptManager
  live : List HandlerObject
  built : List HandlerObject

inductive HandlerEvent
  | construct (h : HandlerObject)
  | destroy (h : HandlerObject)

/-- A constructor runs at an address without an object, a destructor at one with an object. -/
def handlerStep (r : Registry) : HandlerEvent → Registry → Prop
  | .construct h, r' => h.1 ≠ 0 ∧ (∀ n, (h.1, n) ∉ r.live) ∧
      r' = ⟨r.manager.addHandler h.1 h.2, h :: r.live, h :: r.built⟩
  | .destroy h, r' => h ∈ r.live ∧
      r' = ⟨r.manager.removeHandler h.1 h.2, r.live.filter (· ≠ h), r.built⟩

/-- Handlers over any manager that has just been constructed. -/
def handlerSystem : SystemOS.Lib.Transition.System Registry HandlerEvent where
  init r := ∃ code o table, r = ⟨InterruptManager.construct code o table, [], []⟩
  step := handlerStep

/-- The last handler constructed for a number. -/
def newest (built : List HandlerObject) (n : UInt8) : Option HandlerObject :=
  built.find? fun h => h.2 == n

theorem newest_cons (h : HandlerObject) (built : List HandlerObject) (n : UInt8) :
    newest (h :: built) n = if h.2 = n then some h else newest built n := by
  unfold newest
  rw [List.find?_cons]
  by_cases hn : h.2 = n
  · simp [hn]
  · have hother : (h.2 == n) = false := by simpa using hn
    rw [hother, if_neg hn]

/-- What the entry of a number is to point to. -/
def registered (r : Registry) (n : UInt8) : Nat :=
  match newest r.built n with
  | some h => if h ∈ r.live then h.1 else 0
  | none => 0

/-- What holds along the runs. -/
structure Registered (r : Registry) : Prop where
  handlers : ∀ n, r.manager.handlers n = registered r n
  positive : ∀ h ∈ r.live, h.1 ≠ 0
  addresses : ∀ h ∈ r.live, ∀ g ∈ r.live, h.1 = g.1 → h = g

theorem Registered.step {r r' : Registry} {e : HandlerEvent} (hr : Registered r)
    (hstep : handlerStep r e r') : Registered r' := by
  cases e with
  | construct h =>
    obtain ⟨hpos, hfresh, rfl⟩ := hstep
    refine ⟨fun n => ?_, ?_, ?_⟩
    · show Function.update r.manager.handlers h.2 h.1 n = _
      unfold registered
      simp only [newest_cons]
      by_cases hn : h.2 = n
      · subst hn
        simp
      · rw [Function.update_of_ne (Ne.symm hn), if_neg hn, hr.handlers n]
        unfold registered
        cases hnew : newest r.built n with
        | none => rfl
        | some g =>
          have hg : g.2 = n := by
            have := List.find?_some hnew
            simpa using this
          have hne : g ≠ h := by
            rintro rfl
            exact hn hg
          simp [hne]
    · intro g hg
      rcases List.mem_cons.mp hg with rfl | hg
      · exact hpos
      · exact hr.positive g hg
    · intro g hg k hk heq
      rcases List.mem_cons.mp hg with rfl | hg'
      · rcases List.mem_cons.mp hk with rfl | hk'
        · rfl
        · exact absurd (show (g.1, k.2) ∈ r.live by rw [heq]; exact hk') (hfresh k.2)
      · rcases List.mem_cons.mp hk with rfl | hk'
        · exact absurd (show (k.1, g.2) ∈ r.live by rw [← heq]; exact hg') (hfresh g.2)
        · exact hr.addresses g hg' k hk' heq
  | destroy h =>
    obtain ⟨hlive, rfl⟩ := hstep
    refine ⟨fun n => ?_, ?_, ?_⟩
    · show (r.manager.removeHandler h.1 h.2).handlers n = _
      have hold := hr.handlers n
      unfold InterruptManager.removeHandler
      unfold registered at hold ⊢
      by_cases hn : h.2 = n
      · subst hn
        cases hnew : newest r.built h.2 with
        | none =>
          rw [hnew] at hold
          simp only at hold ⊢
          split
          · exact Function.update_self _ _ _
          · exact hold
        | some g =>
          rw [hnew] at hold
          simp only at hold ⊢
          by_cases hgh : g = h
          · subst hgh
            rw [if_pos hlive] at hold
            rw [if_pos hold]
            simp
          · by_cases hg : g ∈ r.live
            · -- a newer handler of that number stays
              rw [if_pos hg] at hold
              have hother : g.1 ≠ h.1 := fun heq => hgh (hr.addresses g hg h hlive heq)
              rw [hold, if_neg hother, if_pos (List.mem_filter.mpr ⟨hg, by simpa using hgh⟩)]
              exact hold
            · rw [if_neg hg] at hold
              rw [hold, if_neg (Ne.symm (hr.positive h hlive)),
                if_neg fun hmem => hg (List.mem_filter.mp hmem).1]
              exact hold
      · have hsame : (if r.manager.handlers h.2 = h.1 then
            { r.manager with handlers := Function.update r.manager.handlers h.2 0 }
            else r.manager).handlers n = r.manager.handlers n := by
          split
          · exact Function.update_of_ne (Ne.symm hn) _ _
          · rfl
        rw [hsame, hold]
        cases hnew : newest r.built n with
        | none => rfl
        | some g =>
          have hg : g.2 = n := by
            have := List.find?_some hnew
            simpa using this
          have hne : g ≠ h := by
            rintro rfl
            exact hn hg
          simp [hne]
    · exact fun g hg => hr.positive g (List.mem_filter.mp hg).1
    · exact fun g hg k hk => hr.addresses g (List.mem_filter.mp hg).1 k (List.mem_filter.mp hk).1

theorem registered_reachable {r : Registry} (h : handlerSystem.Reachable r) : Registered r := by
  refine h.invariant ?_ fun _ _ _ hr hstep => hr.step hstep
  rintro r ⟨code, o, table, rfl⟩
  refine ⟨fun n => rfl, ?_, ?_⟩
  · intro h hh
    cases hh
  · intro h hh
    cases hh

/-- **An interrupt calls the newest handler of its number**, as long as that one exists: never one that
    has been destroyed, and never an older one. -/
theorem registered_newest (r : Registry) (n : UInt8) (h : handlerSystem.Reachable r) :
    (r.manager.DoHandleInterrupt n).called
        = ((newest r.built n).filter (· ∈ r.live)).map Prod.fst ∧
      ((r.manager.DoHandleInterrupt n).printed = [] ↔
        (∃ g ∈ r.live, newest r.built n = some g) ∨
          n.toNat = r.manager.hardwareInterruptOffset.toNat) := by
  have hr := registered_reachable h
  have hentry := hr.handlers n
  unfold registered at hentry
  have hunhandled : text "UNHANDLED INTERRUPT 0x" ++ printfHex n ≠ [] := by
    simp [printfHex]
  unfold InterruptManager.DoHandleInterrupt
  simp only
  cases hnew : newest r.built n with
  | none =>
    rw [hnew] at hentry
    simp only at hentry
    simp [hentry, hunhandled]
  | some g =>
    rw [hnew] at hentry
    simp only at hentry
    by_cases hg : g ∈ r.live
    · rw [if_pos hg] at hentry
      simp only [hentry, hr.positive g hg, ne_eq, not_false_eq_true, if_true, Option.filter_some,
        hg, decide_true, Option.map_some, false_and, if_false, true_and, true_iff]
      exact .inl ⟨g, hg, rfl⟩
    · rw [if_neg hg] at hentry
      simp [hentry, hg, hunhandled]

/-- Two handlers of one number, of which the newer one has been destroyed. -/
def shadowed : Registry where
  manager := (((InterruptManager.construct (fun _ => 0) 0x20 fun _ => gate 0 0 0 0).addHandler
    0x1000 0x21).addHandler 0x2000 0x21).removeHandler 0x2000 0x21
  live := [(0x2000, 0x21), (0x1000, 0x21)].filter (· ≠ (0x2000, 0x21))
  built := [(0x2000, 0x21), (0x1000, 0x21)]

theorem shadowed_reachable : handlerSystem.Reachable shadowed := by
  refine .next (e := .destroy (0x2000, 0x21)) (.next (e := .construct (0x2000, 0x21))
    (.next (e := .construct (0x1000, 0x21)) (.start ⟨fun _ => 0, 0x20, fun _ => gate 0 0 0 0, rfl⟩)
      ⟨by decide, by simp, rfl⟩) ⟨by decide, by simp, rfl⟩) ⟨by simp, rfl⟩

/-- The older one exists and is not called. -/
theorem registered_newest_shadowed : (0x1000, 0x21) ∈ shadowed.live ∧
    (shadowed.manager.DoHandleInterrupt 0x21).called = none :=
  ⟨by decide, (registered_newest shadowed 0x21 shadowed_reachable).1.trans (by decide)⟩

/-- The manager of `kernelMain` once its `SyscallHandler` is constructed at `syscalls`. -/
def kernelManager (code : Stub → UInt32) (table : UInt8 → GateDescriptor) (syscalls : Nat) :
    InterruptManager :=
  (InterruptManager.construct code 0x20 table).addHandler syscalls (0x80 + 0x20)

/-- **The interrupts of the kernel's runs** are those of its table of handlers. -/
theorem kernel_dispatch (table : UInt8 → GateDescriptor) (k : TaskManager) (ev : Event)
    {syscalls : Nat} (hpos : syscalls ≠ 0) (hlt : ev.interrupt < 256) :
    Multitasking.DoHandleInterrupt k ev =
      let r := (kernelManager code table syscalls).DoHandleInterrupt (UInt8.ofNat ev.interrupt)
      if r.called = some syscalls then
        SyscallHandler.HandleInterrupt { k with mem := ev.mem } ev.esp ev.alloc
      else if r.scheduled then TaskManager.Schedule { k with mem := ev.mem } ev.esp
      else ({ k with mem := ev.mem }, ev.esp) := by
  have hnumber : (UInt8.ofNat ev.interrupt).toNat = ev.interrupt := by
    rw [UInt8.toNat_ofNat']
    exact Nat.mod_eq_of_lt hlt
  have hoffset : (kernelManager code table syscalls).hardwareInterruptOffset.toNat = timerVector := rfl
  have hentry : (kernelManager code table syscalls).handlers (UInt8.ofNat ev.interrupt)
      = if ev.interrupt = syscallVector then syscalls else 0 := by
    show Function.update (fun _ => 0) (0x80 + 0x20) syscalls (UInt8.ofNat ev.interrupt) = _
    by_cases hsys : ev.interrupt = syscallVector
    · rw [hsys, if_pos rfl]
      exact Function.update_self _ _ _
    · rw [if_neg hsys, Function.update_of_ne]
      intro heq
      have hnat := congrArg UInt8.toNat heq
      rw [hnumber] at hnat
      exact hsys hnat
  unfold Multitasking.DoHandleInterrupt InterruptManager.DoHandleInterrupt
  simp only [hentry, hnumber, hoffset]
  by_cases hsys : ev.interrupt = syscallVector
  · simp [hsys, hpos]
  · by_cases htimer : ev.interrupt = timerVector
    · have hne : timerVector ≠ syscallVector := by decide
      simp [htimer, hne]
    · simp [hsys, htimer]

end SystemOS.Kernel.InterruptTable
