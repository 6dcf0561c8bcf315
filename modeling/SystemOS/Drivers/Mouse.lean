/-
  SystemOS.Drivers.Mouse — the PS/2 mouse: bytes put together to packets, and the events they make.

  An interrupt brings one byte, or none of the mouse's.  `HandleInterrupt` keeps the bytes of a packet
  in `buffer` and tells the handler what has changed with the third.

  Main results:
    * `HandleInterrupt_decoding` — what one interrupt keeps.
    * `levels_decode`            — the events of a button are the changes of its bit.
    * `interrupts_emitted`       — the range of the offsets.
    * `interrupts_decoded`       — what the handler is told over any run of interrupts.
-/
import SystemOS.Lib.Frames
import Mathlib.Algebra.BigOperators.Group.List.Basic
import Mathlib.Algebra.Order.Ring.Int
import Mathlib.Data.Nat.Bitwise
import Mathlib.Logic.Function.Basic

namespace SystemOS.Drivers.Mouse

open SystemOS.Lib.Frames

/-! ## §1. The driver. -/

/-- A call of a method of `MouseEventHandler`. -/
inductive MouseEvent
  | OnActivate
  | OnMouseDown (button : UInt8)
  | OnMouseUp (button : UInt8)
  | OnMouseMove (x y : Int)
  deriving DecidableEq, Repr

inductive Port
  | dataport | commandport
  deriving DecidableEq, Repr

structure MouseDriver where
  buffer : Nat → UInt8
  offset : Nat
  buttons : UInt8
  /-- Whether `handler` is not null. -/
  handler : Bool

/-- What `Activate` tells the handler and writes to the ports; `command` is what it reads. -/
def Activate (command : UInt8) (d : MouseDriver) :
    List MouseEvent × List (Port × UInt8) × MouseDriver :=
  (if d.handler then [.OnActivate] else [],
    [(.commandport, 0xA8), (.commandport, 0x20), (.commandport, 0x60), (.dataport, command ||| 2),
      (.commandport, 0xD4), (.dataport, 0xF4)],
    { d with offset := 0, buttons := 0 })

/-- The call of `OnMouseMove`. -/
def moveEvent (buffer1 buffer2 : UInt8) : List MouseEvent :=
  if buffer1 ≠ 0 ∨ buffer2 ≠ 0 then [.OnMouseMove buffer1.toInt8.toInt (-buffer2.toInt8.toInt)]
  else []

/-- `0x1<<i`. -/
def bit (i : Nat) : UInt8 := 1 <<< UInt8.ofNat i

/-- One turn of the loop over the buttons. -/
def buttonEvent (buffer0 buttons : UInt8) (i : Nat) : List MouseEvent :=
  if buffer0 &&& bit i ≠ buttons &&& bit i then
    if buttons &&& bit i ≠ 0 then [.OnMouseUp (UInt8.ofNat (i + 1))]
    else [.OnMouseDown (UInt8.ofNat (i + 1))]
  else []

/-- An interrupt, and what the two ports hold when it comes. -/
structure Interrupt where
  esp : UInt32
  status : UInt8
  data : UInt8

def HandleInterrupt (irq : Interrupt) (d : MouseDriver) : List MouseEvent × UInt32 × MouseDriver :=
  if irq.status &&& 0x20 = 0 then ([], irq.esp, d)
  else
    let buffer := Function.update d.buffer d.offset irq.data
    if d.handler = false then ([], irq.esp, { d with buffer := buffer })
    else
      let offset := (d.offset + 1) % 3
      if offset = 0 then
        (moveEvent (buffer 1) (buffer 2) ++ (List.range 3).flatMap (buttonEvent (buffer 0) d.buttons),
          irq.esp, { d with buffer := buffer, offset := offset, buttons := buffer 0 })
      else ([], irq.esp, { d with buffer := buffer, offset := offset })

/-- One interrupt after the other. -/
def interrupts : List Interrupt → MouseDriver → List MouseEvent × MouseDriver
  | [], d => ([], d)
  | irq :: irqs, d =>
    let r := HandleInterrupt irq d
    let s := interrupts irqs r.2.2
    (r.1 ++ s.1, s.2)

/-- The interrupted task goes on. -/
theorem HandleInterrupt_esp (irq : Interrupt) (d : MouseDriver) :
    (HandleInterrupt irq d).2.1 = irq.esp := by
  simp only [HandleInterrupt]
  split
  · rfl
  · split
    · rfl
    · split <;> rfl

/-! ## §2. What a packet means. -/

/-- The three bytes of a packet. -/
structure Packet where
  buttons : UInt8
  x : UInt8
  y : UInt8

namespace Packet

def ofFrame (f : List UInt8) : Packet := ⟨f.getD 0 0, f.getD 1 0, f.getD 2 0⟩

def dx (p : Packet) : Int := p.x.toInt8.toInt

/-- The mouse counts upwards, the screen downwards. -/
def dy (p : Packet) : Int := -p.y.toInt8.toInt

def moving (p : Packet) : Bool := p.dx ≠ 0 ∨ p.dy ≠ 0

end Packet

/-- The bytes that belong to the mouse. -/
def accepted (irqs : List Interrupt) : List UInt8 :=
  (irqs.filter fun irq => irq.status &&& 0x20 ≠ 0).map Interrupt.data

def packets (bs : List UInt8) : List Packet := (frames 3 bs).map Packet.ofFrame

def pressed (buttons : UInt8) (i : Nat) : Bool := buttons.toNat.testBit i

def moved (p : Packet) : List MouseEvent :=
  if p.moving then [.OnMouseMove p.dx p.dy] else []

/-- The button has changed. -/
def changed (old : UInt8) (p : Packet) (i : Nat) : List MouseEvent :=
  if pressed p.buttons i = pressed old i then []
  else if pressed p.buttons i then [.OnMouseDown (UInt8.ofNat (i + 1))]
  else [.OnMouseUp (UInt8.ofNat (i + 1))]

/-- The events of a list of packets after buttons `old`. -/
def decode : UInt8 → List Packet → List MouseEvent
  | _, [] => []
  | old, p :: ps => moved p ++ (List.range 3).flatMap (changed old p) ++ decode p.buttons ps

/-- The first byte of the last packet. -/
def lastButtons (ps : List Packet) : UInt8 := ps.getLast?.elim 0 Packet.buttons

/-- What an event says of a button, `true` for down. -/
def level (i : Nat) : MouseEvent → Option Bool
  | .OnMouseDown button => if button = UInt8.ofNat (i + 1) then some true else none
  | .OnMouseUp button => if button = UInt8.ofNat (i + 1) then some false else none
  | _ => none

def levels (i : Nat) (es : List MouseEvent) : List Bool := es.filterMap (level i)

/-- The last event of the button is a press. -/
def isDown (i : Nat) (es : List MouseEvent) : Bool := (levels i es).getLast?.getD false

def move : MouseEvent → Option (Int × Int)
  | .OnMouseMove x y => some (x, y)
  | _ => none

def moves (es : List MouseEvent) : List (Int × Int) := es.filterMap move

/-! ## §3. Bits and offsets. -/

section Bits

variable {i : Nat} {b c : UInt8}

theorem bit_toNat (hi : i < 3) : (bit i).toNat = 2 ^ i := by
  obtain rfl | rfl | rfl : i = 0 ∨ i = 1 ∨ i = 2 := by omega
  all_goals rfl

theorem masked_toNat (hi : i < 3) (b : UInt8) :
    (b &&& bit i).toNat = (pressed b i).toNat * 2 ^ i := by
  rw [UInt8.toNat_and, bit_toNat hi, Nat.and_two_pow]
  rfl

theorem masked_eq (hi : i < 3) : b &&& bit i = c &&& bit i ↔ pressed b i = pressed c i := by
  rw [← UInt8.toNat_inj, masked_toNat hi, masked_toNat hi,
    Nat.mul_right_cancel_iff (Nat.two_pow_pos i)]
  cases pressed b i <;> cases pressed c i <;> simp

theorem masked_zero (hi : i < 3) : b &&& bit i = 0 ↔ pressed b i = false := by
  rw [← UInt8.toNat_inj, masked_toNat hi]
  cases pressed b i <;> simp

/-- The loop compares what the packet says with what it remembers. -/
theorem buttonEvent_eq (hi : i < 3) (old : UInt8) (p : Packet) :
    buttonEvent p.buttons old i = changed old p i := by
  simp only [buttonEvent, changed, ne_eq, masked_eq hi, masked_zero hi]
  cases pressed p.buttons i <;> cases pressed old i <;> simp

theorem offset_zero (b : UInt8) : b.toInt8.toInt = 0 ↔ b = 0 := by
  constructor
  · intro h
    have hcast : b.toInt8 = 0 := Int8.toInt_inj.mp h
    rw [← UInt8.toUInt8_toInt8 b, hcast]
    rfl
  · rintro rfl
    rfl

theorem offset_range (b : UInt8) : -128 ≤ b.toInt8.toInt ∧ b.toInt8.toInt ≤ 127 :=
  ⟨Int8.le_toInt _, Int8.toInt_le _⟩

end Bits

/-- The driver looks at the bytes, the packet at the offsets they stand for. -/
theorem moveEvent_eq (p : Packet) : moveEvent p.x p.y = moved p := by
  have hmoving : p.x ≠ 0 ∨ p.y ≠ 0 ↔ p.moving = true := by
    rw [Packet.moving, decide_eq_true_iff]
    exact or_congr (not_congr (offset_zero _).symm)
      (not_congr (neg_eq_zero.trans (offset_zero _)).symm)
  exact if_congr hmoving rfl rfl

/-- **The third byte.**  The handler is told what the packet says. -/
theorem packet_events (old : UInt8) (p : Packet) :
    moveEvent p.x p.y ++ (List.range 3).flatMap (buttonEvent p.buttons old) = decode old [p] := by
  rw [moveEvent_eq, decode, decode, List.append_nil]
  congr 1
  exact List.flatMap_congr fun i hi => buttonEvent_eq (List.mem_range.mp hi) old p

/-! ## §4. One interrupt. -/

section Step

variable {irq : Interrupt} {d : MouseDriver}

/-- The driver with the byte in its buffer. -/
def MouseDriver.store (d : MouseDriver) (data : UInt8) : MouseDriver :=
  { d with buffer := Function.update d.buffer d.offset data, offset := (d.offset + 1) % 3 }

theorem MouseDriver.store_last (d : MouseDriver) (data : UInt8) :
    (d.store data).buffer d.offset = data := Function.update_self ..

theorem MouseDriver.store_before {i : Nat} (hi : i < d.offset) (data : UInt8) :
    (d.store data).buffer i = d.buffer i := Function.update_of_ne hi.ne ..

theorem HandleInterrupt_ignored (h : irq.status &&& 0x20 = 0) :
    HandleInterrupt irq d = ([], irq.esp, d) := if_pos h

theorem HandleInterrupt_store (h : irq.status &&& 0x20 ≠ 0) (hhandler : d.handler = true)
    (hoffset : (d.offset + 1) % 3 ≠ 0) :
    HandleInterrupt irq d = ([], irq.esp, d.store irq.data) := by
  rw [HandleInterrupt, if_neg h]
  exact (if_neg (by rw [hhandler]; decide)).trans (if_neg hoffset)

/-- **A complete packet.** -/
theorem HandleInterrupt_packet (h : irq.status &&& 0x20 ≠ 0) (hhandler : d.handler = true)
    (hoffset : (d.offset + 1) % 3 = 0) :
    HandleInterrupt irq d
      = (decode d.buttons [Packet.ofFrame ((List.range 3).map (d.store irq.data).buffer)], irq.esp,
        { d.store irq.data with buttons := (d.store irq.data).buffer 0 }) := by
  rw [HandleInterrupt, if_neg h]
  refine (if_neg (by rw [hhandler]; decide)).trans ((if_pos hoffset).trans ?_)
  exact congrArg (·, _) (packet_events d.buttons
    (Packet.ofFrame ((List.range 3).map (d.store irq.data).buffer)))

end Step

/-! ## §5. Runs of interrupts. -/

theorem decode_append (old : UInt8) (ps : List Packet) (p : Packet) :
    decode old (ps ++ [p]) = decode old ps ++ decode (ps.getLast?.elim old Packet.buttons) [p] := by
  induction ps generalizing old with
  | nil => rfl
  | cons q ps ih =>
      show moved q ++ _ ++ decode q.buttons (ps ++ [p]) = moved q ++ _ ++ decode q.buttons ps ++ _
      rw [ih, List.append_assoc _ (decode _ _)]
      congr 3
      cases ps with
      | nil => rfl
      | cons r ps =>
          rw [List.getLast?_cons_cons]
          cases h : (r :: ps).getLast? with
          | none => exact absurd (List.getLast?_eq_none_iff.mp h) (List.cons_ne_nil _ _)
          | some s => rfl

/-- Bytes `bs` have been accepted and events `es` have been emitted. -/
structure Decoding (bs : List UInt8) (es : List MouseEvent) (d : MouseDriver) : Prop where
  handler : d.handler = true
  offset : d.offset = bs.length % 3
  buffer : (List.range d.offset).map d.buffer = rest 3 bs
  buttons : d.buttons = lastButtons (packets bs)
  events : es = decode 0 (packets bs)

/-- The driver after `Activate`. -/
theorem Activate_decoding {d : MouseDriver} (h : d.handler = true) (command : UInt8) :
    Decoding [] [] (Activate command d).2.2 where
  handler := h
  offset := rfl
  buffer := rfl
  buttons := rfl
  events := rfl

section Run

variable {bs : List UInt8} {es : List MouseEvent} {d : MouseDriver}

/-- The bytes of the next packet, with the one that is stored. -/
theorem Decoding.store_buffer (h : Decoding bs es d) (data : UInt8) :
    (List.range (d.offset + 1)).map (d.store data).buffer = rest 3 bs ++ [data] := by
  rw [List.range_succ, List.map_append, List.map_singleton, d.store_last, ← h.buffer]
  congr 1
  exact List.map_congr_left fun i hi => MouseDriver.store_before (List.mem_range.mp hi) data

theorem Decoding.store_offset (h : Decoding bs es d) (data : UInt8) :
    (d.store data).offset = (bs ++ [data]).length % 3 := by
  show (d.offset + 1) % 3 = _
  rw [h.offset, List.length_append, List.length_singleton, Nat.mod_add_mod]

/-- A byte inside a packet. -/
theorem Decoding.store (h : Decoding bs es d) (hoffset : (d.offset + 1) % 3 ≠ 0) (data : UInt8) :
    Decoding (bs ++ [data]) es (d.store data) := by
  have hlt : d.offset + 1 < 3 := by
    have hmod := h.offset
    omega
  obtain ⟨hframes, hrest⟩ := frames_snoc_lt data (show bs.length % 3 + 1 < 3 by rwa [← h.offset])
  have hpackets : packets (bs ++ [data]) = packets bs := congrArg (List.map Packet.ofFrame) hframes
  constructor
  · exact h.handler
  · exact h.store_offset data
  · rw [hrest, ← h.store_buffer]
    show (List.range ((d.offset + 1) % 3)).map _ = _
    rw [Nat.mod_eq_of_lt hlt]
  · rw [hpackets]
    exact h.buttons
  · rw [hpackets]
    exact h.events

/-- The last byte of a packet. -/
theorem Decoding.packet (h : Decoding bs es d) (hoffset : (d.offset + 1) % 3 = 0) (data : UInt8) :
    Decoding (bs ++ [data])
      (es ++ decode d.buttons [Packet.ofFrame ((List.range 3).map (d.store data).buffer)])
      { d.store data with buttons := (d.store data).buffer 0 } := by
  have htwo : d.offset = 2 := by
    have hmod := h.offset
    omega
  obtain ⟨hframes, hrest⟩ := frames_snoc_last data (show bs.length % 3 + 1 = 3 by
    rw [← h.offset, htwo])
  have hpackets : packets (bs ++ [data])
      = packets bs ++ [Packet.ofFrame ((List.range 3).map (d.store data).buffer)] := by
    have hbuffer := h.store_buffer data
    rw [htwo] at hbuffer
    rw [packets, hframes, List.map_append, hbuffer]
    rfl
  constructor
  · exact h.handler
  · exact h.store_offset data
  · rw [hrest]
    show (List.range ((d.offset + 1) % 3)).map _ = []
    rw [hoffset]
    rfl
  · rw [hpackets, lastButtons, List.getLast?_concat]
    rfl
  · rw [hpackets, decode_append, ← h.events, h.buttons]
    rfl

/-- **What one interrupt keeps.** -/
theorem HandleInterrupt_decoding (h : Decoding bs es d) (irq : Interrupt) :
    Decoding (bs ++ accepted [irq]) (es ++ (HandleInterrupt irq d).1)
      (HandleInterrupt irq d).2.2 := by
  by_cases hstatus : irq.status &&& 0x20 = 0
  · have hnone : accepted [irq] = [] := by simp [accepted, hstatus]
    rw [HandleInterrupt_ignored hstatus, hnone, List.append_nil, List.append_nil]
    exact h
  · have hsome : accepted [irq] = [irq.data] := by simp [accepted, hstatus]
    rw [hsome]
    by_cases hoffset : (d.offset + 1) % 3 = 0
    · rw [HandleInterrupt_packet hstatus h.handler hoffset]
      exact h.packet hoffset irq.data
    · rw [HandleInterrupt_store hstatus h.handler hoffset, List.append_nil]
      exact h.store hoffset irq.data

theorem accepted_cons (irq : Interrupt) (irqs : List Interrupt) :
    accepted (irq :: irqs) = accepted [irq] ++ accepted irqs := by
  simp only [accepted, ← List.map_append, ← List.filter_append, List.singleton_append]

/-- **What a run of interrupts keeps.** -/
theorem interrupts_decoding (h : Decoding bs es d) (irqs : List Interrupt) :
    Decoding (bs ++ accepted irqs) (es ++ (interrupts irqs d).1) (interrupts irqs d).2 := by
  induction irqs generalizing bs es d with
  | nil =>
      show Decoding (bs ++ []) (es ++ []) d
      rw [List.append_nil, List.append_nil]
      exact h
  | cons irq irqs ih =>
      rw [accepted_cons, ← List.append_assoc]
      show Decoding _ (es ++ (_ ++ _)) _
      rw [← List.append_assoc]
      exact ih (HandleInterrupt_decoding h irq)

end Run

/-! ## §6. What the events say. -/

section Levels

variable {i j : Nat}

theorem levels_append (i : Nat) (es fs : List MouseEvent) :
    levels i (es ++ fs) = levels i es ++ levels i fs := List.filterMap_append

theorem moves_append (es fs : List MouseEvent) : moves (es ++ fs) = moves es ++ moves fs :=
  List.filterMap_append

theorem levels_moved (i : Nat) (p : Packet) : levels i (moved p) = [] := by
  unfold moved
  split <;> rfl

theorem button_eq (hi : i < 3) (hj : j < 3) :
    UInt8.ofNat (j + 1) = UInt8.ofNat (i + 1) ↔ j = i := by
  rw [← UInt8.toNat_inj, UInt8.toNat_ofNat', UInt8.toNat_ofNat']
  omega

/-- A button that has changed says so once, and nothing of the others. -/
theorem levels_changed (hi : i < 3) (hj : j < 3) (old : UInt8) (p : Packet) :
    levels i (changed old p j)
      = if j = i ∧ pressed old i ≠ pressed p.buttons i then [pressed p.buttons i] else [] := by
  by_cases hji : j = i
  · subst hji
    unfold changed
    cases pressed p.buttons j <;> cases pressed old j <;> simp [levels, level]
  · have hne := mt (button_eq hi hj).mp hji
    have hdown : level i (.OnMouseDown (UInt8.ofNat (j + 1))) = none := if_neg hne
    have hup : level i (.OnMouseUp (UInt8.ofNat (j + 1))) = none := if_neg hne
    rw [if_neg (fun h => hji h.1), changed, levels]
    split
    · rfl
    · split
      · rw [List.filterMap_cons_none hdown, List.filterMap_nil]
      · rw [List.filterMap_cons_none hup, List.filterMap_nil]

theorem levels_packet (hi : i < 3) (old : UInt8) (p : Packet) :
    levels i ((List.range 3).flatMap (changed old p))
      = if pressed old i ≠ pressed p.buttons i then [pressed p.buttons i] else [] := by
  show levels i (changed old p 0 ++ (changed old p 1 ++ (changed old p 2 ++ []))) = _
  simp only [List.append_nil, levels_append, levels_changed hi (show 0 < 3 by decide),
    levels_changed hi (show 1 < 3 by decide), levels_changed hi (show 2 < 3 by decide)]
  obtain rfl | rfl | rfl : i = 0 ∨ i = 1 ∨ i = 2 := by omega
  all_goals simp

/-- **The events of a button are the changes of its bit.** -/
theorem levels_decode (hi : i < 3) (old : UInt8) (ps : List Packet) :
    pressed old i :: levels i (decode old ps)
      = (ps.map fun p => pressed p.buttons i).destutter' (· ≠ ·) (pressed old i) := by
  induction ps generalizing old with
  | nil => rfl
  | cons p ps ih =>
      rw [decode, levels_append, levels_append, levels_moved, levels_packet hi, List.nil_append,
        List.map_cons]
      by_cases hp : pressed old i = pressed p.buttons i
      · rw [if_neg (not_not.mpr hp), List.destutter'_cons_neg _ (not_not.mpr hp), List.nil_append,
          hp, ih]
      · rw [if_pos hp, List.destutter'_cons_pos _ hp, List.singleton_append, ih]

/-- Presses and releases take turns, a press first. -/
theorem levels_isChain (hi : i < 3) (ps : List Packet) :
    (false :: levels i (decode 0 ps)).IsChain (· ≠ ·) := by
  have h := levels_decode hi 0 ps
  rw [show pressed 0 i = false from Nat.zero_testBit i] at h
  rw [h]
  exact List.isChain_destutter' _ _ _

/-- A button is down when its bit is set in the last packet. -/
theorem isDown_decode (hi : i < 3) (ps : List Packet) :
    isDown i (decode 0 ps) = pressed (lastButtons ps) i := by
  have hlast := congrArg List.getLast? (levels_decode hi 0 ps)
  have hzero : pressed 0 i = false := Nat.zero_testBit i
  rw [getLast_destutter', hzero] at hlast
  rw [List.getLast?_cons, List.getLast?_cons, Option.some_inj] at hlast
  rw [isDown, hlast, List.getLast?_map, lastButtons]
  cases ps.getLast? with
  | none => exact hzero.symm
  | some p => rfl

end Levels

section Moves

theorem moves_moved (p : Packet) :
    moves (moved p) = if p.moving then [(p.dx, p.dy)] else [] := by
  unfold moved
  split <;> rfl

theorem moves_changed (old : UInt8) (p : Packet) (i : Nat) : moves (changed old p i) = [] := by
  unfold changed
  split
  · rfl
  · split <;> rfl

theorem moves_packet (old : UInt8) (p : Packet) :
    moves ((List.range 3).flatMap (changed old p)) = [] := by
  show moves (changed old p 0 ++ (changed old p 1 ++ (changed old p 2 ++ []))) = []
  simp only [moves_append, moves_changed, List.append_nil]

/-- The moves are the offsets of the packets, those of a packet without motion left out. -/
theorem moves_decode (old : UInt8) (ps : List Packet) :
    moves (decode old ps) = (ps.filter Packet.moving).map fun p => (p.dx, p.dy) := by
  induction ps generalizing old with
  | nil => rfl
  | cons p ps ih =>
      rw [decode, moves_append, moves_append, moves_packet, List.append_nil, moves_moved, ih]
      by_cases h : p.moving
      · rw [if_pos h, List.filter_cons_of_pos h, List.map_cons, List.singleton_append]
      · rw [if_neg h, List.filter_cons_of_neg h, List.nil_append]

/-- What is zero for a packet without motion has the same sum over the moves. -/
theorem sum_filter (f : Packet → Int) (hf : ∀ p : Packet, p.dx = 0 → p.dy = 0 → f p = 0)
    (ps : List Packet) : ((ps.filter Packet.moving).map f).sum = (ps.map f).sum := by
  induction ps with
  | nil => rfl
  | cons p ps ih =>
      rw [List.map_cons, List.sum_cons]
      by_cases h : p.moving
      · rw [List.filter_cons_of_pos h, List.map_cons, List.sum_cons, ih]
      · have hstill : p.dx = 0 ∧ p.dy = 0 := by simpa [Packet.moving] using h
        rw [List.filter_cons_of_neg h, hf p hstill.1 hstill.2, zero_add, ih]

/-- **The sums of the offsets.** -/
theorem sum_moves (old : UInt8) (ps : List Packet) :
    ((moves (decode old ps)).map Prod.fst).sum = (ps.map Packet.dx).sum
      ∧ ((moves (decode old ps)).map Prod.snd).sum = (ps.map Packet.dy).sum := by
  rw [moves_decode, List.map_map, List.map_map]
  exact ⟨sum_filter Packet.dx (fun _ hx _ => hx) ps, sum_filter Packet.dy (fun _ _ hy => hy) ps⟩

/-- The offsets that a packet can have. -/
structure Emitted (m : Int × Int) : Prop where
  x_ge : -128 ≤ m.1
  x_le : m.1 ≤ 127
  y_ge : -127 ≤ m.2
  y_le : m.2 ≤ 128

/-- **The range of the offsets.** -/
theorem emitted_decode {m : Int × Int} {old : UInt8} {ps : List Packet}
    (h : m ∈ moves (decode old ps)) : Emitted m := by
  rw [moves_decode] at h
  obtain ⟨p, -, rfl⟩ := List.mem_map.mp h
  have hx := offset_range p.x
  have hy := offset_range p.y
  exact ⟨hx.1, hx.2, neg_le_neg hy.2, neg_le_neg hy.1⟩

end Moves

/-- The offsets of a run of interrupts. -/
theorem interrupts_emitted {d : MouseDriver} (h : d.handler = true) (command : UInt8)
    (irqs : List Interrupt) :
    ∀ m ∈ moves (interrupts irqs (Activate command d).2.2).1, Emitted m := by
  intro m hm
  have hes := (interrupts_decoding (Activate_decoding h command) irqs).events
  rw [List.nil_append] at hes
  rw [hes] at hm
  exact emitted_decode hm

/-- **What the handler is told** over any run of interrupts. -/
theorem interrupts_decoded (d : MouseDriver) (command : UInt8) (irqs : List Interrupt)
    (h : d.handler = true) :
    let es := (interrupts irqs (Activate command d).2.2).1
    let ps := packets (accepted irqs)
    es = decode 0 ps
      ∧ (∀ i < 3, (false :: levels i es).IsChain (· ≠ ·)
        ∧ isDown i es = pressed (lastButtons ps) i)
      ∧ ((moves es).map Prod.fst).sum = (ps.map Packet.dx).sum
      ∧ ((moves es).map Prod.snd).sum = (ps.map Packet.dy).sum := by
  intro es ps
  have hes : es = decode 0 ps := (interrupts_decoding (Activate_decoding h command) irqs).events
  refine ⟨hes, ?_⟩
  rw [hes]
  exact ⟨fun i hi => ⟨levels_isChain hi ps, isDown_decode hi ps⟩, sum_moves 0 ps⟩

/-- A packet with the left button and a byte of the keyboard in between. -/
theorem interrupts_decoded_press :
    let d : MouseDriver := ⟨fun _ => 0, 2, 7, true⟩
    let irqs : List Interrupt := [⟨0, 0x20, 9⟩, ⟨0, 0x01, 30⟩, ⟨0, 0x20, 5⟩, ⟨0, 0x21, 0xFF⟩]
    (interrupts irqs (Activate 0 d).2.2).1 = [.OnMouseMove 5 1, .OnMouseDown 1]
      ∧ isDown 0 (interrupts irqs (Activate 0 d).2.2).1 = true := by
  intro d irqs
  have h := interrupts_decoded d 0 irqs rfl
  exact ⟨h.1.trans (by decide), (h.2.1 0 (by decide)).2.trans (by decide)⟩

end SystemOS.Drivers.Mouse
