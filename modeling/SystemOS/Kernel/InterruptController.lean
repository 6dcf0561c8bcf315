/-
  SystemOS.Kernel.InterruptController — interrupts from the controllers to the handlers and back.

  A pair of 8259A controllers, the second one on line 2 of the first, keeps a line in service until it
  is told of the end of the interrupt; meanwhile it holds back that line and those behind it.  The
  constructor of `InterruptManager` sets the controllers up, and `DoHandleInterrupt` tells them of the
  end, by the number that the stub has left.

  Main results:
    * `init_pics`       — how the constructor's writes leave the controllers, whatever they were.
    * `idle_iff`        — between interrupts no line is ever left in service exactly when the offset is
      that of the stubs.
    * `line_reaches`    — then every line can come in, and calls the handler of its vector.
-/
import SystemOS.Kernel.InterruptTable

namespace SystemOS.Kernel.InterruptController

open SystemOS.Lib.Transition SystemOS.Lib.Words
open SystemOS.Kernel.InterruptStubs SystemOS.Kernel.InterruptTable

/-! ## §1. One controller. -/

/-- The base of its vectors, the initialization words that it expects, the mask, and the lines in
    service. -/
structure Pic where
  vector : UInt8
  expected : Nat
  mask : UInt8
  inService : Nat → Bool

/-- The end of an interrupt that names no line: the first line in service. -/
def Pic.endOfInterrupt (p : Pic) : Pic :=
  match (List.range 8).find? p.inService with
  | some i => { p with inService := Function.update p.inService i false }
  | none => p

/-- A byte at the command port: 0x11 begins an initialization with three words. -/
def Pic.command (p : Pic) (v : UInt8) : Pic :=
  if v &&& 0x10 ≠ 0 then { p with expected := 3, mask := 0, inService := fun _ => false }
  else if v = 0x20 then p.endOfInterrupt
  else p

/-- A byte at the data port: an initialization word, of which the first is the base, or the mask. -/
def Pic.data (p : Pic) (v : UInt8) : Pic :=
  match p.expected with
  | 0 => { p with mask := v }
  | 3 => { p with vector := v &&& 0xF8, expected := 2 }
  | n + 1 => { p with expected := n }

/-- Line `i` comes in. -/
def Pic.Accepts (p : Pic) (i : Nat) : Prop :=
  p.mask.toNat.testBit i = false ∧ ∀ j ≤ i, p.inService j = false

def Pic.serve (p : Pic) (i : Nat) : Pic :=
  { p with inService := Function.update p.inService i true }

/-! ## §2. The pair. -/

structure Pics where
  master : Pic
  slave : Pic

/-- A byte at a port. -/
def Pics.write (p : Pics) (w : UInt16 × UInt8) : Pics :=
  if w.1 = MasterCommandPort then { p with master := p.master.command w.2 }
  else if w.1 = MasterDataPort then { p with master := p.master.data w.2 }
  else if w.1 = SlaveCommandPort then { p with slave := p.slave.command w.2 }
  else if w.1 = SlaveDataPort then { p with slave := p.slave.data w.2 }
  else p

def Pics.writes (p : Pics) (ws : List (UInt16 × UInt8)) : Pics := ws.foldl Pics.write p

/-- Lines 8 to 15 are those of the second controller. -/
def Pics.Accepts (p : Pics) (line : Nat) : Prop :=
  if line < 8 then line ≠ 2 ∧ p.master.Accepts line
  else line < 16 ∧ p.master.Accepts 2 ∧ p.slave.Accepts (line - 8)

def Pics.serve (p : Pics) (line : Nat) : Pics :=
  if line < 8 then { p with master := p.master.serve line }
  else ⟨p.master.serve 2, p.slave.serve (line - 8)⟩

/-- The vector that the processor is given. -/
def Pics.vector (p : Pics) (line : Nat) : UInt8 :=
  if line < 8 then p.master.vector + UInt8.ofNat line
  else p.slave.vector + UInt8.ofNat (line - 8)

/-- No line is in service. -/
def Pics.Idle (p : Pics) : Prop := ∀ i, p.master.inService i = false ∧ p.slave.inService i = false

/-- What the constructor of `InterruptManager` writes. -/
def initWrites (hardwareInterruptOffset : UInt16) : List (UInt16 × UInt8) :=
  [(MasterCommandPort, 0x11), (SlaveCommandPort, 0x11),
   (MasterDataPort, hardwareInterruptOffset.toUInt8),
   (SlaveDataPort, (hardwareInterruptOffset + 8).toUInt8),
   (MasterDataPort, 0x04), (SlaveDataPort, 0x02),
   (MasterDataPort, 0x01), (SlaveDataPort, 0x01),
   (MasterDataPort, 0x00), (SlaveDataPort, 0x00)]

/-- A controller that has been set up. -/
def ready (vector : UInt8) : Pic := ⟨vector &&& 0xF8, 0, 0, fun _ => false⟩

theorem init_pics (p : Pics) (o : UInt16) :
    p.writes (initWrites o) = ⟨ready o.toUInt8, ready (o + 8).toUInt8⟩ := by
  have hports : MasterDataPort ≠ MasterCommandPort ∧ SlaveCommandPort ≠ MasterCommandPort ∧
      SlaveCommandPort ≠ MasterDataPort ∧ SlaveDataPort ≠ MasterCommandPort ∧
      SlaveDataPort ≠ MasterDataPort ∧ SlaveDataPort ≠ SlaveCommandPort := by decide
  obtain ⟨h1, h2, h3, h4, h5, h6⟩ := hports
  have hbegin : (0x11 : UInt8) &&& 0x10 ≠ 0 := by decide
  simp only [Pics.writes, initWrites, List.foldl_cons, List.foldl_nil, Pics.write, h1, h2, h3, h4, h5,
    h6, if_true, if_false, Pic.command, hbegin, ne_eq, not_false_eq_true, Pic.data, ready]

/-! ## §3. The machine. -/

/-- The labels of interruptstubs.s. -/
def entryPoints : List Stub :=
  (List.range 0x14).map .HandleException ++ (List.range 0x10).map .HandleInterruptRequest ++
    [.HandleInterruptRequest 0x31, .HandleInterruptRequest 0x80, .InterruptIgnore]

/-- Each label has its own address. -/
def DistinctLabels (code : Stub → UInt32) : Prop :=
  ∀ s ∈ entryPoints, ∀ t ∈ entryPoints, code s = code t → s = t

/-- The manager, the controllers, whether it is the active one, and the interrupt flag of the code
    that is interrupted. -/
structure State where
  manager : InterruptManager
  pics : Pics
  active : Bool
  interruptFlag : Bool

/-- `register` is any change that constructors and destructors of handlers make. -/
inductive Event
  | Activate
  | Deactivate
  | register (handlers : UInt8 → Nat)
  | line (i : Nat)
  | vector (v : UInt8)

/-- A stub has run: `InterruptIgnore` is an `iret`, and the static `HandleInterrupt` returns when there
    is no active manager. -/
def State.react (s : State) (stub : Stub) : State :=
  if stub = .InterruptIgnore ∨ s.active = false then s
  else
    let reaction := s.manager.DoHandleInterrupt (UInt8.ofNat stub.interruptnumber)
    { s with pics := s.pics.writes reaction.writes }

/-- The processor takes the vector `v` through the table. -/
def Takes (code : Stub → UInt32) (s : State) (v : UInt8) (s' : State) : Prop :=
  ∃ stub ∈ entryPoints, code stub = (s.manager.interruptDescriptorTable v).offset ∧
    s' = s.react stub

/-- One event.  The gates turn interrupts off until the `iret`, so that no line comes in between. -/
def step (code : Stub → UInt32) (s : State) : Event → State → Prop
  | .Activate, s' => s' = { s with active := true, interruptFlag := true }
  | .Deactivate, s' => s' = if s.active then { s with active := false, interruptFlag := false } else s
  | .register handlers, s' => s' = { s with manager := { s.manager with handlers := handlers } }
  | .line i, s' => s.interruptFlag = true ∧ s.pics.Accepts i ∧
      Takes code { s with pics := s.pics.serve i } (s.pics.vector i) s'
  | .vector v, s' => Takes code s v s'

/-- A manager has been constructed with an offset; the boot loader leaves interrupts off. -/
def interruptSystem (code : Stub → UInt32) (o : UInt16) : System State Event where
  init s := ∃ (table : UInt8 → GateDescriptor) (pics : Pics), s =
    ⟨InterruptManager.construct code o table, pics.writes (initWrites o), false, false⟩
  step := step code

variable {code : Stub → UInt32} {o : UInt16} {s s' : State} {v : UInt8}

theorem vectorStub_entry (o : UInt16) (v : UInt8) : vectorStub o v ∈ entryPoints := by
  unfold vectorStub entryPoints
  split
  · simp
  · split
    · rename_i h
      simp only [List.mem_append, List.mem_map, List.mem_range]
      exact .inl (.inr ⟨_, h, rfl⟩)
    · split
      · rename_i h
        simp only [List.mem_append, List.mem_map, List.mem_range]
        exact .inl (.inl ⟨_, h, rfl⟩)
      · simp

/-- The vector goes through its stub. -/
theorem takes_iff (hcode : DistinctLabels code)
    (htable : (s.manager.interruptDescriptorTable v).offset = code (vectorStub o v)) :
    Takes code s v s' ↔ s' = s.react (vectorStub o v) := by
  constructor
  · rintro ⟨stub, hstub, haddress, rfl⟩
    rw [hcode stub hstub _ (vectorStub_entry o v) (haddress.trans htable)]
  · rintro rfl
    exact ⟨_, vectorStub_entry o v, htable.symm, rfl⟩

theorem react_manager (s : State) (stub : Stub) : (s.react stub).manager = s.manager ∧
    (s.react stub).active = s.active ∧ (s.react stub).interruptFlag = s.interruptFlag := by
  unfold State.react
  split <;> exact ⟨rfl, rfl, rfl⟩

/-! ## §4. The end of an interrupt. -/

theorem endOfInterrupt_idle {p : Pic} (h : ∀ i, p.inService i = false) : p.endOfInterrupt = p := by
  have hnone : (List.range 8).find? p.inService = none := by
    simp [h]
  unfold Pic.endOfInterrupt
  rw [hnone]

/-- A controller that serves one line forgets it. -/
theorem endOfInterrupt_serve {p : Pic} (h : ∀ i, p.inService i = false) {i : Nat} (hi : i < 8) :
    (p.serve i).endOfInterrupt = p := by
  have hfirst : (List.range 8).find? (p.serve i).inService = some i := by
    rw [List.find?_range_eq_some]
    refine ⟨Function.update_self _ _ _, List.mem_range.mpr hi, ?_⟩
    intro j hj
    have hne : j ≠ i := by omega
    simp [Pic.serve, Function.update_of_ne hne, h]
  unfold Pic.endOfInterrupt
  rw [hfirst]
  simp only [Pic.serve, Function.update_idem]
  rw [← h i, Function.update_eq_self]

theorem write_master (p : Pics) :
    p.write (MasterCommandPort, 0x20) = { p with master := p.master.endOfInterrupt } := by
  have h : ¬ ((0x20 : UInt8) &&& 0x10 ≠ 0) := by decide
  simp only [Pics.write, if_true, Pic.command, h, if_false]

theorem write_slave (p : Pics) :
    p.write (SlaveCommandPort, 0x20) = { p with slave := p.slave.endOfInterrupt } := by
  have h : ¬ ((0x20 : UInt8) &&& 0x10 ≠ 0) := by decide
  have hports : SlaveCommandPort ≠ MasterCommandPort ∧ SlaveCommandPort ≠ MasterDataPort := by decide
  simp only [Pics.write, if_true, Pic.command, h, if_false, hports.1, hports.2]

theorem idle_ready (a b : UInt8) : (Pics.mk (ready a) (ready b)).Idle := fun _ => ⟨rfl, rfl⟩

/-- Idle controllers have nothing to end. -/
theorem reaction_idle {p : Pics} (h : p.Idle) (m : InterruptManager) (n : UInt8) :
    p.writes (m.DoHandleInterrupt n).writes = p := by
  have hmaster : p.write (MasterCommandPort, 0x20) = p := by
    rw [write_master, endOfInterrupt_idle fun i => (h i).1]
  have hslave : p.write (SlaveCommandPort, 0x20) = p := by
    rw [write_slave, endOfInterrupt_idle fun i => (h i).2]
  unfold InterruptManager.DoHandleInterrupt
  simp only
  split
  · split
    · show (p.write (MasterCommandPort, 0x20)).write (SlaveCommandPort, 0x20) = p
      rw [hmaster, hslave]
    · exact hmaster
  · rfl

/-- Both ends of a line of the second controller, and the one of a line of the first. -/
theorem reaction_line {p : Pics} (h : p.Idle) {m : InterruptManager} {n : UInt8} {i : Nat}
    (hi : i < 16) (hin : m.hardwareInterruptOffset.toNat ≤ n.toNat ∧
      n.toNat < m.hardwareInterruptOffset.toNat + 16)
    (hslave : i < 8 ↔ ¬ m.hardwareInterruptOffset.toNat + 8 ≤ n.toNat) :
    (p.serve i).writes (m.DoHandleInterrupt n).writes = p := by
  have hmaster := fun i => (h i).1
  unfold InterruptManager.DoHandleInterrupt
  simp only [if_pos hin]
  by_cases hlow : i < 8
  · rw [if_neg (hslave.mp hlow)]
    show (p.serve i).write (MasterCommandPort, 0x20) = p
    rw [write_master]
    simp only [Pics.serve, if_pos hlow, endOfInterrupt_serve hmaster hlow]
  · have hhigh : m.hardwareInterruptOffset.toNat + 8 ≤ n.toNat := by
      by_contra hnot
      exact hlow (hslave.mpr hnot)
    rw [if_pos hhigh]
    show ((p.serve i).write (MasterCommandPort, 0x20)).write (SlaveCommandPort, 0x20) = p
    rw [write_master, write_slave]
    simp only [Pics.serve, if_neg hlow]
    rw [endOfInterrupt_serve hmaster (by omega),
      endOfInterrupt_serve (fun j => (h j).2) (show i - 8 < 8 by omega)]

/-! ## §5. Runs. -/

/-- What holds for every offset. -/
structure Wired (code : Stub → UInt32) (o : UInt16) (s : State) : Prop where
  offset : s.manager.hardwareInterruptOffset = o
  table : ∀ v, (s.manager.interruptDescriptorTable v).offset = code (vectorStub o v)
  active : s.interruptFlag = true → s.active = true

theorem Wired.start (code : Stub → UInt32) (o : UInt16) (table : UInt8 → GateDescriptor)
    (pics : Pics) : Wired code o ⟨InterruptManager.construct code o table, pics, false, false⟩ :=
  ⟨rfl, fun v => (constructed_gate code table o v).1, fun h => h⟩

theorem Wired.react (h : Wired code o s) (stub : Stub) : Wired code o (s.react stub) := by
  obtain ⟨hmanager, hactive, hflag⟩ := react_manager s stub
  refine ⟨?_, ?_, ?_⟩
  · rw [hmanager]
    exact h.offset
  · rw [hmanager]
    exact h.table
  · rw [hactive, hflag]
    exact h.active

theorem Wired.step {e : Event} (hcode : DistinctLabels code) (h : Wired code o s)
    (hstep : step code s e s') : Wired code o s' := by
  cases e with
  | Activate =>
    obtain rfl := hstep
    exact ⟨h.offset, h.table, fun _ => rfl⟩
  | Deactivate =>
    obtain rfl := hstep
    split
    · exact ⟨h.offset, h.table, fun hflag => hflag⟩
    · exact h
  | register handlers =>
    obtain rfl := hstep
    exact ⟨h.offset, h.table, h.active⟩
  | line i =>
    obtain ⟨_, _, htakes⟩ := hstep
    have hserved : Wired code o { s with pics := s.pics.serve i } := ⟨h.offset, h.table, h.active⟩
    rw [(takes_iff hcode (hserved.table _)).mp htakes]
    exact hserved.react _
  | vector v =>
    rw [(takes_iff hcode (h.table v)).mp hstep]
    exact h.react _

/-- The lines of an offset that is that of the stubs. -/
theorem line_stub : ∀ i < 16, vectorStub 0x20 (0x20 + UInt8.ofNat i) = .HandleInterruptRequest i := by
  decide

theorem line_vector {i : Nat} (hi : i < 16) :
    (Pics.mk (ready 0x20) (ready 0x28)).vector i = 0x20 + UInt8.ofNat i := by
  have hall : ∀ i < 16, (Pics.mk (ready 0x20) (ready 0x28)).vector i = 0x20 + UInt8.ofNat i := by
    decide
  exact hall i hi

theorem Pics.Accepts.lt {p : Pics} {i : Nat} (h : p.Accepts i) : i < 16 := by
  unfold Pics.Accepts at h
  split at h
  · omega
  · exact h.1

/-- A line comes in, and the controllers are as before. -/
theorem line_returns (h : Wired code 0x20 s) (hpics : s.pics = ⟨ready 0x20, ready 0x28⟩) {i : Nat}
    (hflag : s.interruptFlag = true) (hi : i < 16) :
    State.react { s with pics := s.pics.serve i } (.HandleInterruptRequest i) = s := by
  have hnumber : (UInt8.ofNat (Stub.HandleInterruptRequest i).interruptnumber).toNat = 0x20 + i := by
    show ((i + 0x20) % 256) % 256 = 0x20 + i
    omega
  have hoffset : s.manager.hardwareInterruptOffset.toNat = 0x20 := by
    rw [h.offset]
    rfl
  have hidle : s.pics.Idle := by
    rw [hpics]
    exact idle_ready 0x20 0x28
  have hwrites := reaction_line hidle (m := s.manager)
    (n := UInt8.ofNat (Stub.HandleInterruptRequest i).interruptnumber) hi
    (by rw [hoffset, hnumber]; omega) (by rw [hoffset, hnumber]; omega)
  unfold State.react
  rw [if_neg (by simp [h.active hflag])]
  simp only [hwrites]

/-- With the offset of the stubs the controllers are the same in every state. -/
theorem pics_reachable (hcode : DistinctLabels code) (h : (interruptSystem code 0x20).Reachable s) :
    Wired code 0x20 s ∧ s.pics = ⟨ready 0x20, ready 0x28⟩ := by
  refine h.invariant (I := fun s => Wired code 0x20 s ∧ s.pics = ⟨ready 0x20, ready 0x28⟩) ?_ ?_
  · rintro s ⟨table, pics, rfl⟩
    exact ⟨Wired.start code 0x20 table _, init_pics pics 0x20⟩
  · rintro s e s' ⟨hwired, hpics⟩ hstep
    refine ⟨hwired.step hcode hstep, ?_⟩
    cases e with
    | Activate =>
      obtain rfl := hstep
      exact hpics
    | Deactivate =>
      obtain rfl := hstep
      split <;> exact hpics
    | register handlers =>
      obtain rfl := hstep
      exact hpics
    | line i =>
      obtain ⟨hflag, haccepts, htakes⟩ := hstep
      have hi := haccepts.lt
      have hserved : Wired code 0x20 { s with pics := s.pics.serve i } :=
        ⟨hwired.offset, hwired.table, hwired.active⟩
      have hvector : s.pics.vector i = 0x20 + UInt8.ofNat i := by
        rw [hpics]
        exact line_vector hi
      rw [(takes_iff hcode (hserved.table _)).mp htakes, hvector, line_stub i hi,
        line_returns hwired hpics hflag hi]
      exact hpics
    | vector v =>
      rw [(takes_iff hcode (hwired.table v)).mp hstep]
      unfold State.react
      split
      · exact hpics
      · show s.pics.writes _ = _
        rw [reaction_idle (by rw [hpics]; exact idle_ready 0x20 0x28), hpics]

/-! ## §6. Other offsets. -/

/-- `DoHandleInterrupt` tells the first controller of the end of a vector. -/
def Acknowledges (o : UInt16) (v : UInt8) : Prop :=
  vectorStub o v ≠ .InterruptIgnore ∧ o.toNat ≤ (vectorStub o v).interruptnumber ∧
    (vectorStub o v).interruptnumber < o.toNat + 16

theorem interruptnumber_lt (stub : Stub) : stub.interruptnumber < 256 := by
  cases stub with
  | HandleException num => exact Nat.mod_lt _ (by decide)
  | HandleInterruptRequest num => exact Nat.mod_lt _ (by decide)
  | InterruptIgnore => show 0 < 256; decide

/-- Otherwise a line stays in service. -/
theorem unacknowledged {stub : Stub} (h : Wired code o s) {i j : Nat}
    (hin : (s.pics.serve i).master.inService j = true)
    (hidle : (State.react { s with pics := s.pics.serve i } stub).pics.Idle) :
    stub ≠ .InterruptIgnore ∧ o.toNat ≤ stub.interruptnumber ∧
      stub.interruptnumber < o.toNat + 16 := by
  have hnumber : (UInt8.ofNat stub.interruptnumber).toNat = stub.interruptnumber := by
    rw [UInt8.toNat_ofNat']
    exact Nat.mod_eq_of_lt (interruptnumber_lt stub)
  have hclosed : ∀ p : Pics, p = s.pics.serve i → ¬ p.Idle := by
    rintro p rfl hp
    have := (hp j).1
    rw [hin] at this
    cases this
  unfold State.react at hidle
  split at hidle
  · exact absurd hidle (hclosed _ rfl)
  · rename_i hstub
    refine ⟨fun heq => hstub (.inl heq), ?_⟩
    by_contra hout
    refine hclosed _ ?_ hidle
    unfold InterruptManager.DoHandleInterrupt
    simp only [h.offset, hnumber, if_neg hout]
    rfl

theorem base_toNat (v : UInt8) : (v &&& 0xF8).toNat = v.toNat / 8 * 8 := by
  have hv : v.toNat < 256 := v.toNat_lt
  have hnat : (v &&& 0xF8).toNat = v.toNat &&& ((2 ^ 5 - 1) <<< 3) := UInt8.toNat_and v 0xF8
  have hshift := mask_shift v.toNat 5 3
  rw [← hnat, Nat.shiftRight_eq_div_pow] at hshift
  have hlow : (v &&& 0xF8).toNat % 2 ^ 3 = 0 := by
    rw [hnat, Nat.and_mod_two_pow]
    exact Nat.and_zero _
  omega

/-- The first and the last line are acknowledged with one offset only. -/
theorem offset_of_acknowledges {v w : UInt8} (hv : v.toNat = o.toNat % 256 / 8 * 8)
    (hw : w.toNat = ((o.toNat + 8) % 256 / 8 * 8 + 7) % 256) (h : Acknowledges o v)
    (h' : Acknowledges o w) : o.toNat = 0x20 := by
  obtain ⟨hstub, hle, hlt⟩ := h
  obtain ⟨hstub', hle', hlt'⟩ := h'
  have ho : o.toNat < 65536 := o.toNat_lt
  have hcases : ∀ u : UInt8, vectorStub o u ≠ .InterruptIgnore →
      (u.toNat = 0x80 ∧ (vectorStub o u).interruptnumber = 0xA0) ∨
      ((u.toNat + 256 - o.toNat % 256) % 256 < 0x10 ∧ (vectorStub o u).interruptnumber
        = ((u.toNat + 256 - o.toNat % 256) % 256 + 0x20) % 256) ∨
      (0x10 ≤ (u.toNat + 256 - o.toNat % 256) % 256 ∧ u.toNat < 0x14 ∧
        (vectorStub o u).interruptnumber = u.toNat % 256) := by
    intro u hu
    unfold vectorStub at hu ⊢
    by_cases h80 : u = 0x80
    · rw [if_pos h80]
      exact .inl ⟨by rw [h80]; rfl, rfl⟩
    · rw [if_neg h80] at hu ⊢
      by_cases hline : (u.toNat + 256 - o.toNat % 256) % 256 < 0x10
      · rw [if_pos hline]
        exact .inr (.inl ⟨hline, rfl⟩)
      · rw [if_neg hline] at hu ⊢
        by_cases hexception : u.toNat < 0x14
        · rw [if_pos hexception]
          exact .inr (.inr ⟨by omega, hexception, rfl⟩)
        · rw [if_neg hexception] at hu
          exact absurd rfl hu
  have hfirst := hcases v hstub
  have hlast := hcases w hstub'
  generalize (vectorStub o v).interruptnumber = n at hle hlt hfirst
  generalize (vectorStub o w).interruptnumber = n' at hle' hlt' hlast
  generalize o.toNat = offset at *
  generalize v.toNat = first at *
  generalize w.toNat = last at *
  omega

/-- The manager is active, and nothing has come in. -/
def activated (code : Stub → UInt32) (o : UInt16) : State where
  manager := InterruptManager.construct code o fun _ => gate 0 0 0 0
  pics := ⟨ready o.toUInt8, ready (o + 8).toUInt8⟩
  active := true
  interruptFlag := true

theorem activated_reachable (code : Stub → UInt32) (o : UInt16) :
    (interruptSystem code o).Reachable (activated code o) := by
  have hstart : (interruptSystem code o).Reachable
      ⟨InterruptManager.construct code o fun _ => gate 0 0 0 0,
        ⟨ready o.toUInt8, ready (o + 8).toUInt8⟩, false, false⟩ :=
    .start ⟨fun _ => gate 0 0 0 0, ⟨ready 0, ready 0⟩, by rw [init_pics]⟩
  exact .next (e := .Activate) hstart rfl

theorem activated_accepts (code : Stub → UInt32) (o : UInt16) {i : Nat} (hi : i < 16)
    (hne : i ≠ 2) : (activated code o).pics.Accepts i := by
  have hready : ∀ (v : UInt8) (j : Nat), (ready v).Accepts j :=
    fun v j => ⟨Nat.zero_testBit j, fun _ _ => rfl⟩
  unfold Pics.Accepts
  split
  · exact ⟨hne, hready _ _⟩
  · exact ⟨hi, hready _ _, hready _ _⟩

/-- A line that is followed by idle controllers has been acknowledged. -/
theorem acknowledged (hcode : DistinctLabels code) {i j : Nat} (hi : i < 16) (hne : i ≠ 2)
    (hin : ((activated code o).pics.serve i).master.inService j = true)
    (hidle : ∀ s, (interruptSystem code o).Reachable s → s.pics.Idle) :
    Acknowledges o ((activated code o).pics.vector i) := by
  have hwired : Wired code o (activated code o) :=
    ⟨rfl, fun v => (constructed_gate code _ o v).1, fun _ => rfl⟩
  have hserved : Wired code o
      { activated code o with pics := (activated code o).pics.serve i } :=
    ⟨hwired.offset, hwired.table, hwired.active⟩
  have hstep : (interruptSystem code o).step (activated code o) (.line i) _ :=
    ⟨rfl, activated_accepts code o hi hne, (takes_iff hcode (hserved.table _)).mpr rfl⟩
  exact unacknowledged hwired hin (hidle _ ((activated_reachable code o).next hstep))

/-- **No line is left in service**, in any run, exactly when the offset is that of the stubs. -/
theorem idle_iff (code : Stub → UInt32) (o : UInt16) (hcode : DistinctLabels code) :
    (∀ s, (interruptSystem code o).Reachable s → s.pics.Idle) ↔ o = 0x20 := by
  constructor
  · intro hidle
    have hfirst := acknowledged (i := 0) (j := 0) hcode (by decide) (by decide) rfl hidle
    have hlast := acknowledged (i := 15) (j := 2) hcode (by decide) (by decide) rfl hidle
    have hlow : o.toUInt8.toNat = o.toNat % 256 := UInt16.toNat_toUInt8 o
    have hhigh : (o + 8).toUInt8.toNat = (o.toNat + 8) % 256 := by
      rw [UInt16.toNat_toUInt8, UInt16.toNat_add]
      show (o.toNat + 8) % 2 ^ 16 % 2 ^ 8 = _
      omega
    have hoffset := offset_of_acknowledges (o := o) ?_ ?_ hfirst hlast
    · exact UInt16.toNat_inj.mp hoffset
    · show ((o.toUInt8 &&& 0xF8) + UInt8.ofNat 0).toNat = _
      rw [UInt8.toNat_add, base_toNat, hlow]
      show (o.toNat % 256 / 8 * 8 + 0) % 2 ^ 8 = _
      omega
    · show (((o + 8).toUInt8 &&& 0xF8) + UInt8.ofNat 7).toNat = _
      rw [UInt8.toNat_add, base_toNat, hhigh]
      rfl
  · rintro rfl s h
    rw [(pics_reachable hcode h).2]
    exact idle_ready 0x20 0x28

/-- The labels at the addresses 0, 1, 2, … -/
def labels (stub : Stub) : UInt32 := UInt32.ofNat (entryPoints.idxOf stub)

theorem labels_distinct : DistinctLabels labels := by
  intro s hs t ht heq
  have hlen : entryPoints.length = 39 := by decide
  have hs' := List.idxOf_lt_length_of_mem hs
  have ht' := List.idxOf_lt_length_of_mem ht
  have hnat := congrArg UInt32.toNat heq
  simp only [labels, UInt32.toNat_ofNat'] at hnat
  refine (List.idxOf_inj hs).mp ?_
  omega

theorem idle_iff_labels :
    (∀ s, (interruptSystem labels 0x28).Reachable s → s.pics.Idle) ↔ (0x28 : UInt16) = 0x20 :=
  idle_iff labels 0x28 labels_distinct

/-- **Every line can come in again and again**, from every reachable state with interrupts on, and
    calls the handler of its vector. -/
theorem line_reaches (code : Stub → UInt32) (s : State) (i : Nat) (hcode : DistinctLabels code)
    (h : (interruptSystem code 0x20).Reachable s) (hi : i < 16) (hne : i ≠ 2)
    (hflag : s.interruptFlag = true) :
    (interruptSystem code 0x20).step s (.line i) s ∧
      (s.manager.interruptDescriptorTable (s.pics.vector i)).offset
        = code (.HandleInterruptRequest i) ∧
      (Stub.HandleInterruptRequest i).interruptnumber = (s.pics.vector i).toNat := by
  obtain ⟨hwired, hpics⟩ := pics_reachable hcode h
  have hserved : Wired code 0x20 { s with pics := s.pics.serve i } :=
    ⟨hwired.offset, hwired.table, hwired.active⟩
  have hvector : s.pics.vector i = 0x20 + UInt8.ofNat i := by
    rw [hpics]
    exact line_vector hi
  have haccepts : s.pics.Accepts i := by
    rw [hpics]
    exact activated_accepts code 0x20 hi hne
  refine ⟨⟨hflag, haccepts, (takes_iff hcode (hserved.table _)).mpr ?_⟩, ?_, ?_⟩
  · rw [hvector, line_stub i hi, line_returns hwired hpics hflag hi]
  · rw [hwired.table, hvector, line_stub i hi]
  · rw [hvector]
    have hall : ∀ i < 16, (Stub.HandleInterruptRequest i).interruptnumber
        = (0x20 + UInt8.ofNat i).toNat := by decide
    exact hall i hi

theorem line_reaches_keyboard :
    (interruptSystem labels 0x20).step (activated labels 0x20) (.line 1) (activated labels 0x20) ∧
      ((activated labels 0x20).manager.interruptDescriptorTable
        ((activated labels 0x20).pics.vector 1)).offset = labels (.HandleInterruptRequest 1) ∧
      (Stub.HandleInterruptRequest 1).interruptnumber
        = ((activated labels 0x20).pics.vector 1).toNat :=
  line_reaches labels (activated labels 0x20) 1 labels_distinct (activated_reachable labels 0x20)
    (by decide) (by decide) rfl

end SystemOS.Kernel.InterruptController
