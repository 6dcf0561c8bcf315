/-
  SystemOS.Drivers.VgaMode — the registers of a graphics mode.

  The adapter keeps its registers in five groups.  An index port selects a register of a group and a
  data port writes it, with two exceptions: registers 0 to 7 of the cathode ray tube controller are
  locked by bit 7 of its register 0x11, and the attribute controller takes index and data at one
  port, in turns that begin with a read of the input status.

  Main results:
    * `writeRegisters_iff` — from every state all registers hold the table, when the table selects
      the colour addresses.
    * `screen_painted`     — after `SetMode`, rectangles are painted in the segment of the screen.
-/
import SystemOS.Drivers.Vga
import SystemOS.Lib.RegisterFile
import Mathlib.Tactic.IntervalCases

namespace SystemOS.Drivers.VgaMode

open SystemOS.Lib.Painting SystemOS.Lib.RegisterFile
open SystemOS.Drivers.Vga (Mem forLoop GetColorIndex)

/-! ## §1. The adapter. -/

structure Adapter where
  misc : UInt8
  seqIndex : UInt8
  seq : UInt8 → UInt8
  crtcIndex : UInt8
  crtc : UInt8 → UInt8
  gcIndex : UInt8
  gc : UInt8 → UInt8
  attrIndex : UInt8
  attr : UInt8 → UInt8
  /-- The next byte at the attribute controller's port is data. -/
  isData : Bool

/-- Bit 0 of the miscellaneous register moves 0x3b4, 0x3b5 and 0x3ba to 0x3d4, 0x3d5 and 0x3da. -/
def Adapter.colour (s : Adapter) : Bool := s.misc &&& 0x01 == 0x01

def Adapter.locked (s : Adapter) : Bool := s.crtc 0x11 &&& 0x80 != 0

/-- A byte for the selected register of the cathode ray tube controller. -/
def Adapter.writeCrtc (s : Adapter) (data : UInt8) : Adapter :=
  if s.locked ∧ s.crtcIndex < 7 then s
  else if s.locked ∧ s.crtcIndex = 7 then
    -- bit 4 of register 7 belongs to the line compare register
    { s with crtc := Function.update s.crtc 7 ((s.crtc 7 &&& ~~~0x10) ||| (data &&& 0x10)) }
  else { s with crtc := Function.update s.crtc s.crtcIndex data }

/-- A byte for the attribute controller.  The palette, registers 0 to 15, takes data only while bit
    5 of the index is 0 and the screen is off. -/
def Adapter.writeAttribute (s : Adapter) (data : UInt8) : Adapter :=
  if s.isData then
    if s.attrIndex &&& 0x1F < 16 ∧ s.attrIndex &&& 0x20 ≠ 0 then { s with isData := false }
    else { s with
      attr := Function.update s.attr (s.attrIndex &&& 0x1F) data
      isData := false }
  else { s with attrIndex := data, isData := true }

/-- The ports that the driver uses, by their numbers. -/
inductive Port
  | x3c0
  | x3c2
  | x3c4
  | x3c5
  | x3ce
  | x3cf
  | x3d4
  | x3d5
  | x3da
  deriving DecidableEq

def miscPort : Port := .x3c2

def crtcIndexPort : Port := .x3d4

def crtcDataPort : Port := .x3d5

def sequencerIndexPort : Port := .x3c4

def sequencerDataPort : Port := .x3c5

def graphicsControllerIndexPort : Port := .x3ce

def graphicsControllerDataPort : Port := .x3cf

def attributeControllerIndexPort : Port := .x3c0

def attributeControllerWritePort : Port := .x3c0

def attributeControllerResetPort : Port := .x3da

def Write8 : Port → UInt8 → Adapter → Adapter
  | .x3c0, data, s => s.writeAttribute data
  | .x3c2, data, s => { s with misc := data }
  | .x3c4, data, s => { s with seqIndex := data }
  | .x3c5, data, s => { s with seq := Function.update s.seq s.seqIndex data }
  | .x3ce, data, s => { s with gcIndex := data }
  | .x3cf, data, s => { s with gc := Function.update s.gc s.gcIndex data }
  | .x3d4, data, s => if s.colour then { s with crtcIndex := data } else s
  | .x3d5, data, s => if s.colour then s.writeCrtc data else s
  | .x3da, _, s => s

/-- What a port answers; the driver does not look at the input status. -/
def Read8 : Port → Adapter → UInt8 × Adapter
  | .x3cf, s => (s.gc s.gcIndex, s)
  | .x3d5, s => if s.colour then (s.crtc s.crtcIndex, s) else (0xFF, s)
  | .x3da, s => if s.colour then (0x00, { s with isData := false }) else (0xFF, s)
  | _, s => (0xFF, s)

/-! ## §2. The driver. -/

/-- `for(uint8_t i = 0; i < n; i++)`. -/
def upTo (turn : Nat → Adapter → Adapter) : Nat → Adapter → Adapter
  | 0, s => s
  | n + 1, s => turn n (upTo turn n s)

/-- A turn of the loops over an index and a data port. -/
def writeIndexed (indexPort dataPort : Port) (registers : Nat → UInt8) (i : Nat) (s : Adapter) :
    Adapter :=
  Write8 dataPort (registers i) (Write8 indexPort (UInt8.ofNat i) s)

/-- A turn of the loop over the attribute controller. -/
def writeAttributeRegister (registers : Nat → UInt8) (i : Nat) (s : Adapter) : Adapter :=
  let s := (Read8 attributeControllerResetPort s).2
  let s := Write8 attributeControllerIndexPort (UInt8.ofNat i) s
  Write8 attributeControllerWritePort (registers i) s

/-- Register 3 with bit 7 set and register 0x11 without its lock, before the controller is written. -/
def unlock (s : Adapter) : Adapter :=
  let s := Write8 crtcIndexPort 0x03 s
  let (data, s) := Read8 crtcDataPort s
  let s := Write8 crtcDataPort (data ||| 0x80) s
  let s := Write8 crtcIndexPort 0x11 s
  let (data, s) := Read8 crtcDataPort s
  Write8 crtcDataPort (data &&& ~~~0x80) s

/-- The part of the table for the cathode ray tube controller, as the driver changes it. -/
def crtcTable (registers : Nat → UInt8) : Nat → UInt8 :=
  let registers := Function.update registers 0x03 (registers 0x03 ||| 0x80)
  Function.update registers 0x11 (registers 0x11 &&& ~~~0x80)

def WriteRegisters (registers : Nat → UInt8) (s : Adapter) : Adapter :=
  let s := Write8 miscPort (registers 0) s
  let registers := fun i => registers (i + 1)
  let s := upTo (writeIndexed sequencerIndexPort sequencerDataPort registers) 5 s
  let registers := fun i => registers (i + 5)
  let s := unlock s
  let registers := crtcTable registers
  let s := upTo (writeIndexed crtcIndexPort crtcDataPort registers) 25 s
  let registers := fun i => registers (i + 25)
  let s := upTo (writeIndexed graphicsControllerIndexPort graphicsControllerDataPort registers) 9 s
  let registers := fun i => registers (i + 9)
  let s := upTo (writeAttributeRegister registers) 21 s
  let s := (Read8 attributeControllerResetPort s).2
  Write8 attributeControllerIndexPort 0x20 s

def SupportsMode (width height colordepth : UInt32) : Bool :=
  width == 320 && height == 200 && colordepth == 8

def g_320x200x256 : List UInt8 :=
  [0x63,
   0x03, 0x01, 0x0F, 0x00, 0x0E,
   0x5F, 0x4F, 0x50, 0x82, 0x54, 0x80, 0xBF, 0x1F,
   0x00, 0x41, 0x00, 0x00, 0x00, 0x00, 0x00, 0x00,
   0x9C, 0x0E, 0x8F, 0x28, 0x40, 0x96, 0xB9, 0xA3,
   0xFF,
   0x00, 0x00, 0x00, 0x00, 0x00, 0x40, 0x05, 0x0F,
   0xFF,
   0x00, 0x01, 0x02, 0x03, 0x04, 0x05, 0x06, 0x07,
   0x08, 0x09, 0x0A, 0x0B, 0x0C, 0x0D, 0x0E, 0x0F,
   0x41, 0x00, 0x0F, 0x00, 0x00]

def SetMode (width height colordepth : UInt32) (s : Adapter) : Bool × Adapter :=
  if !SupportsMode width height colordepth then (false, s)
  else (true, WriteRegisters (fun i => g_320x200x256.getD i 0) s)

/-- `GetFrameBufferSegment` asks the adapter. -/
def GetFrameBufferSegment (s : Adapter) : Nat × Adapter :=
  let s := Write8 graphicsControllerIndexPort 0x06 s
  let (data, s) := Read8 graphicsControllerDataPort s
  (Vga.GetFrameBufferSegment data, s)

/-- The adapter and the memory. -/
abbrev Screen := Adapter × Mem

def PutPixel (x y : Int32) (colorIndex : UInt8) (p : Screen) : Screen :=
  if x < 0 ∨ 320 ≤ x ∨ y < 0 ∨ 200 ≤ y then p
  else
    let (segment, s) := GetFrameBufferSegment p.1
    (s, Function.update p.2 (segment + (320 * y.toInt + x.toInt).toNat) colorIndex)

/-- The arguments of a call of `FillRectangle`. -/
structure Rectangle where
  x : UInt32
  y : UInt32
  w : UInt32
  h : UInt32
  r : UInt8
  g : UInt8
  b : UInt8

def FillRectangle (a : Rectangle) (p : Screen) : Screen :=
  forLoop (a.y + a.h) (fun Y => forLoop (a.x + a.w)
    (fun X => PutPixel X Y (GetColorIndex a.r a.g a.b)) a.x.toInt32) a.y.toInt32 p

/-! ## §3. One loop. -/

variable {turn : Nat → Adapter → Adapter} {registers r : Nat → UInt8} {s : Adapter} {n i : Nat}

/-- **The rule for the loops.** -/
theorem upTo_rule {P : Nat → Adapter → Prop} (h : P 0 s)
    (hturn : ∀ i < n, ∀ t, P i t → P (i + 1) (turn i t)) : P n (upTo turn n s) := by
  induction n with
  | zero => exact h
  | succ n ih =>
    exact hturn n (Nat.lt_succ_self n) _ (ih fun i hi => hturn i (by omega))

/-- The writes of a loop over the registers 0 to `n - 1` of a group. -/
def writes (r : Nat → UInt8) (n : Nat) : List (UInt8 × UInt8) :=
  (List.range n).map fun i => (UInt8.ofNat i, r i)

theorem ofNat_inj {i k : Nat} (hi : i < 256) (hk : k < 256) (h : UInt8.ofNat i = UInt8.ofNat k) :
    i = k := by
  have hnat := congrArg UInt8.toNat h
  rw [UInt8.toNat_ofNat', UInt8.toNat_ofNat'] at hnat
  omega

theorem writes_read (f : UInt8 → UInt8) (hn : n ≤ 256) (hi : i < n) :
    writeAll f (writes r n) (UInt8.ofNat i) = r i := by
  refine writeAll_of_mem (List.mem_map.mpr ⟨i, List.mem_range.mpr hi, rfl⟩) fun w hw heq => ?_
  obtain ⟨k, hk, rfl⟩ := List.mem_map.mp hw
  have hk' := List.mem_range.mp hk
  rw [ofNat_inj (by omega) (by omega) heq]

/-- Registers from `n` on are not written. -/
theorem writes_above (f : UInt8 → UInt8) (hn : n ≤ i) (hi : i < 256) :
    writeAll f (writes r n) (UInt8.ofNat i) = f (UInt8.ofNat i) := by
  refine writeAll_of_ne fun w hw heq => ?_
  obtain ⟨k, hk, rfl⟩ := List.mem_map.mp hw
  have hk' := List.mem_range.mp hk
  have := ofNat_inj (by omega) hi heq
  omega

theorem writeAll_writes_succ (f : UInt8 → UInt8) (r : Nat → UInt8) (n : Nat) :
    writeAll f (writes r (n + 1))
      = Function.update (writeAll f (writes r n)) (UInt8.ofNat n) (r n) := by
  unfold writes
  rw [List.range_succ, List.map_append, writeAll_append]
  rfl

/-! ## §4. The turns. -/

theorem sequencer_loop (r : Nat → UInt8) (n : Nat) (s : Adapter) :
    upTo (writeIndexed sequencerIndexPort sequencerDataPort r) (n + 1) s
      = { s with seqIndex := UInt8.ofNat n, seq := writeAll s.seq (writes r (n + 1)) } := by
  induction n with
  | zero => rfl
  | succ n ih =>
    rw [upTo, ih, writeAll_writes_succ _ _ (n + 1)]
    rfl

theorem graphics_loop (r : Nat → UInt8) (n : Nat) (s : Adapter) :
    upTo (writeIndexed graphicsControllerIndexPort graphicsControllerDataPort r) (n + 1) s
      = { s with gcIndex := UInt8.ofNat n, gc := writeAll s.gc (writes r (n + 1)) } := by
  induction n with
  | zero => rfl
  | succ n ih =>
    rw [upTo, ih, writeAll_writes_succ _ _ (n + 1)]
    rfl

/-- Without the lock every register is written. -/
theorem writeCrtc_unlocked (h : s.locked = false) (data : UInt8) :
    s.writeCrtc data = { s with crtc := Function.update s.crtc s.crtcIndex data } := by
  unfold Adapter.writeCrtc
  rw [if_neg (by simp [h]), if_neg (by simp [h])]

theorem crtc_turn (hcolour : s.colour = true) (hlock : s.locked = false) :
    writeIndexed crtcIndexPort crtcDataPort r i s
      = { s with
          crtcIndex := UInt8.ofNat i
          crtc := Function.update s.crtc (UInt8.ofNat i) (r i) } := by
  have hindex : Write8 crtcIndexPort (UInt8.ofNat i) s = { s with crtcIndex := UInt8.ofNat i } :=
    if_pos hcolour
  unfold writeIndexed
  rw [hindex]
  show (if s.colour then _ else _) = _
  rw [if_pos hcolour]
  exact @writeCrtc_unlocked { s with crtcIndex := UInt8.ofNat i } hlock _

/-- Writing the controller leaves the lock open, when the table does. -/
theorem crtc_loop (r : Nat → UInt8) (hcolour : s.colour = true) (hlock : s.crtc 0x11 &&& 0x80 = 0)
    (hr : r 0x11 &&& 0x80 = 0) (hn : n < 256) :
    upTo (writeIndexed crtcIndexPort crtcDataPort r) (n + 1) s
      = { s with crtcIndex := UInt8.ofNat n, crtc := writeAll s.crtc (writes r (n + 1)) } := by
  induction n with
  | zero =>
    have hunlocked : s.locked = false := by
      unfold Adapter.locked
      rw [hlock]
      rfl
    exact crtc_turn hcolour hunlocked
  | succ n ih =>
    have hopen : writeAll s.crtc (writes r (n + 1)) 0x11 &&& 0x80 = 0 := by
      by_cases h : 0x11 < n + 1
      · rw [show (0x11 : UInt8) = UInt8.ofNat 0x11 from rfl, writes_read _ (by omega) h]
        exact hr
      · rw [show (0x11 : UInt8) = UInt8.ofNat 0x11 from rfl,
          writes_above (i := 0x11) _ (by omega) (by decide)]
        exact hlock
    rw [upTo, ih (by omega), writeAll_writes_succ _ _ (n + 1)]
    refine crtc_turn hcolour ?_
    unfold Adapter.locked
    rw [hopen]
    rfl

/-- The index of an attribute register has neither bit 5 nor anything above it. -/
theorem attribute_index (hi : i < 21) :
    UInt8.ofNat i &&& 0x1F = UInt8.ofNat i ∧ UInt8.ofNat i &&& 0x20 = 0 := by
  interval_cases i <;> decide

theorem attribute_turn (hcolour : s.colour = true) (hi : i < 21) :
    writeAttributeRegister r i s
      = { s with
          attrIndex := UInt8.ofNat i
          attr := Function.update s.attr (UInt8.ofNat i) (r i)
          isData := false } := by
  obtain ⟨hlow, hoff⟩ := attribute_index hi
  have hreset : (Read8 attributeControllerResetPort s).2 = { s with isData := false } := by
    show (if s.colour then _ else _ : UInt8 × Adapter).2 = _
    rw [if_pos hcolour]
  unfold writeAttributeRegister
  rw [hreset]
  show Adapter.writeAttribute { s with attrIndex := UInt8.ofNat i, isData := true } (r i) = _
  unfold Adapter.writeAttribute
  simp only [hlow, hoff]
  rw [if_pos trivial, if_neg fun h => h.2 rfl]

theorem attribute_loop (r : Nat → UInt8) (hcolour : s.colour = true) (hn : n < 21) :
    upTo (writeAttributeRegister r) (n + 1) s
      = { s with
          attrIndex := UInt8.ofNat n
          attr := writeAll s.attr (writes r (n + 1))
          isData := false } := by
  induction n with
  | zero => exact attribute_turn hcolour hn
  | succ n ih =>
    rw [upTo, ih (by omega), writeAll_writes_succ _ _ (n + 1)]
    exact attribute_turn hcolour hn

/-! ## §5. The whole table. -/

theorem lock_cleared (data : UInt8) : data &&& ~~~0x80 &&& 0x80 = 0 := by
  rw [UInt8.and_assoc, show (~~~0x80 &&& 0x80 : UInt8) = 0 from rfl, UInt8.and_zero]

theorem writeCrtc_shape (s : Adapter) (data : UInt8) :
    ∃ c, s.writeCrtc data = { s with crtc := c } := by
  unfold Adapter.writeCrtc
  split_ifs
  · exact ⟨s.crtc, rfl⟩
  · exact ⟨_, rfl⟩
  · exact ⟨_, rfl⟩

/-- Register 0x11 is never locked. -/
theorem writeCrtc_lock (hindex : s.crtcIndex = 0x11) (data : UInt8) :
    s.writeCrtc data = { s with crtc := Function.update s.crtc 0x11 data } := by
  unfold Adapter.writeCrtc
  rw [hindex, if_neg fun h => absurd h.2 (by decide), if_neg fun h => absurd h.2 (by decide)]

/-- The controller's registers after `unlock`. -/
def opened (s : Adapter) : UInt8 → UInt8 :=
  let c := (Adapter.writeCrtc { s with crtcIndex := 0x03 } (s.crtc 0x03 ||| 0x80)).crtc
  Function.update c 0x11 (c 0x11 &&& ~~~0x80)

theorem opened_unlocked (s : Adapter) : opened s 0x11 &&& 0x80 = 0 := by
  unfold opened
  rw [Function.update_self]
  exact lock_cleared _

theorem unlock_eq (hcolour : s.colour = true) :
    unlock s = { s with crtcIndex := 0x11, crtc := opened s } := by
  have hindex : ∀ t : Adapter, t.colour = true → ∀ k, Write8 crtcIndexPort k t
      = { t with crtcIndex := k } := fun t ht k => if_pos ht
  have hread : ∀ t : Adapter, t.colour = true →
      Read8 crtcDataPort t = (t.crtc t.crtcIndex, t) := fun t ht => if_pos ht
  have hdata : ∀ t : Adapter, t.colour = true → ∀ data, Write8 crtcDataPort data t
      = t.writeCrtc data := fun t ht data => if_pos ht
  obtain ⟨c, hc⟩ := writeCrtc_shape { s with crtcIndex := 0x03 } (s.crtc 0x03 ||| 0x80)
  unfold unlock opened
  -- whether the first write gets through depends on the lock, the second one always does
  simp only [hindex s hcolour, hread { s with crtcIndex := 0x03 } hcolour]
  rw [hdata { s with crtcIndex := 0x03 } hcolour, hc]
  simp only [hindex { s with crtcIndex := 0x03, crtc := c } hcolour,
    hread { s with crtcIndex := 0x11, crtc := c } hcolour]
  rw [hdata { s with crtcIndex := 0x11, crtc := c } hcolour, writeCrtc_lock rfl]

/-- The registers hold the table, and the screen is on. -/
structure Programmed (registers : Nat → UInt8) (s : Adapter) : Prop where
  misc : s.misc = registers 0
  seq : ∀ i < 5, s.seq (UInt8.ofNat i) = registers (i + 1)
  crtc : ∀ i < 25, s.crtc (UInt8.ofNat i) = crtcTable (fun i => registers (i + 6)) i
  gc : ∀ i < 9, s.gc (UInt8.ofNat i) = registers (i + 31)
  attr : ∀ i < 21, s.attr (UInt8.ofNat i) = registers (i + 40)
  on : s.attrIndex = 0x20

theorem crtcTable_unlocked (registers : Nat → UInt8) : crtcTable registers 0x11 &&& 0x80 = 0 := by
  unfold crtcTable
  rw [Function.update_self]
  exact lock_cleared _

theorem crtcTable_behind (registers : Nat → UInt8) (i : Nat) :
    crtcTable registers (i + 25) = registers (i + 25) := by
  unfold crtcTable
  rw [Function.update_of_ne (by omega), Function.update_of_ne (by omega)]

/-- The last two calls switch the screen on. -/
theorem screen_on (hcolour : s.colour = true) :
    Write8 attributeControllerIndexPort 0x20 (Read8 attributeControllerResetPort s).2
      = { s with attrIndex := 0x20, isData := true } := by
  have hreset : (Read8 attributeControllerResetPort s).2 = { s with isData := false } := by
    show (if s.colour then _ else _ : UInt8 × Adapter).2 = _
    rw [if_pos hcolour]
  rw [hreset]
  rfl

/-- **Every table with the colour addresses reaches the registers**, from every state. -/
theorem writeRegisters_programmed (hcolour : registers 0 &&& 0x01 = 0x01) (s : Adapter) :
    Programmed registers (WriteRegisters registers s) := by
  have hc : ∀ t : Adapter, t.misc = registers 0 → t.colour = true := by
    intro t ht
    unfold Adapter.colour
    rw [ht, hcolour]
    rfl
  unfold WriteRegisters
  simp only
  rw [sequencer_loop _ 4, unlock_eq (hc _ rfl), crtc_loop (n := 24) _ (hc _ rfl) (opened_unlocked _)
    (crtcTable_unlocked _) (by decide), graphics_loop _ 8,
    attribute_loop (n := 20) _ (hc _ rfl) (by decide), screen_on (hc _ rfl)]
  refine ⟨rfl, fun i hi => ?_, fun i hi => ?_, fun i hi => ?_, fun i hi => ?_, rfl⟩ <;> dsimp only
  · rw [writes_read _ (by decide) hi]
  · rw [writes_read _ (by decide) hi]
  · rw [writes_read _ (by decide) hi]
    exact crtcTable_behind (fun i => registers (i + 6)) i
  · rw [writes_read _ (by decide) hi]
    exact crtcTable_behind (fun i => registers (i + 6)) (i + 9)

/-- The controller listens elsewhere, and holds what it held. -/
structure Elsewhere (c : UInt8 → UInt8) (s : Adapter) : Prop where
  misc : s.misc &&& 0x01 ≠ 0x01
  crtc : s.crtc = c

section Elsewhere

variable {c : UInt8 → UInt8}

theorem Elsewhere.not_colour (h : Elsewhere c s) : ¬ s.colour = true := by
  unfold Adapter.colour
  simpa using h.misc

theorem Elsewhere.write (h : Elsewhere c s) (port : Port) (hport : port ≠ miscPort) (data : UInt8) :
    Elsewhere c (Write8 port data s) := by
  cases port with
  | x3c0 =>
    show Elsewhere c (s.writeAttribute data)
    unfold Adapter.writeAttribute
    split_ifs
    · exact ⟨h.misc, h.crtc⟩
    · exact ⟨h.misc, h.crtc⟩
    · exact ⟨h.misc, h.crtc⟩
  | x3c2 => exact absurd rfl hport
  | x3c4 => exact ⟨h.misc, h.crtc⟩
  | x3c5 => exact ⟨h.misc, h.crtc⟩
  | x3ce => exact ⟨h.misc, h.crtc⟩
  | x3cf => exact ⟨h.misc, h.crtc⟩
  | x3d4 =>
    show Elsewhere c (if s.colour then _ else s)
    rw [if_neg h.not_colour]
    exact h
  | x3d5 =>
    show Elsewhere c (if s.colour then _ else s)
    rw [if_neg h.not_colour]
    exact h
  | x3da => exact h

theorem Elsewhere.read (h : Elsewhere c s) (port : Port) : Elsewhere c (Read8 port s).2 := by
  unfold Read8
  split
  · exact h
  · rw [if_neg h.not_colour]
    exact h
  · rw [if_neg h.not_colour]
    exact h
  · exact h

/-- Without the colour addresses the controller is not reached. -/
theorem writeRegisters_elsewhere (hcolour : registers 0 &&& 0x01 ≠ 0x01) (s : Adapter) :
    Elsewhere s.crtc (WriteRegisters registers s) := by
  have hindexed : ∀ indexPort dataPort : Port, indexPort ≠ miscPort → dataPort ≠ miscPort →
      ∀ (r : Nat → UInt8) (n : Nat) (t : Adapter), Elsewhere s.crtc t →
        Elsewhere s.crtc (upTo (writeIndexed indexPort dataPort r) n t) := by
    intro indexPort dataPort hindex hdata r n t ht
    exact upTo_rule (P := fun _ => Elsewhere s.crtc) ht fun i _ u hu =>
      (hu.write indexPort hindex _).write dataPort hdata _
  have hattribute : ∀ (r : Nat → UInt8) (n : Nat) (t : Adapter), Elsewhere s.crtc t →
      Elsewhere s.crtc (upTo (writeAttributeRegister r) n t) := by
    intro r n t ht
    exact upTo_rule (P := fun _ => Elsewhere s.crtc) ht fun i _ u hu =>
      ((hu.read _).write attributeControllerIndexPort (by decide) _).write
        attributeControllerWritePort (by decide) _
  have hunlock : ∀ t : Adapter, Elsewhere s.crtc t → Elsewhere s.crtc (unlock t) := by
    intro t ht
    have hfirst := ((ht.write crtcIndexPort (by decide) 0x03).read crtcDataPort).write crtcDataPort
      (by decide) ((Read8 crtcDataPort (Write8 crtcIndexPort 0x03 t)).1 ||| 0x80)
    exact ((hfirst.write crtcIndexPort (by decide) 0x11).read crtcDataPort).write crtcDataPort
      (by decide) _
  have hmisc : Elsewhere s.crtc (Write8 miscPort (registers 0) s) := ⟨hcolour, rfl⟩
  have hseq := hindexed sequencerIndexPort sequencerDataPort (by decide) (by decide) (fun i => registers (i + 1)) 5 _ hmisc
  have hcrtc := hindexed crtcIndexPort crtcDataPort (by decide) (by decide)
    (crtcTable fun i => registers (i + 6)) 25 _ (hunlock _ hseq)
  have hgc := hindexed graphicsControllerIndexPort graphicsControllerDataPort (by decide)
    (by decide) (fun i => crtcTable (fun i => registers (i + 6)) (i + 25)) 9 _ hcrtc
  have hattr := hattribute (fun i => crtcTable (fun i => registers (i + 6)) (i + 9 + 25)) 21 _ hgc
  exact (hattr.read attributeControllerResetPort).write attributeControllerIndexPort (by decide) 0x20

end Elsewhere

/-- **A table reaches the registers from every state** exactly when it selects the colour
    addresses. -/
theorem writeRegisters_iff (registers : Nat → UInt8) :
    (∀ s, Programmed registers (WriteRegisters registers s)) ↔ registers 0 &&& 0x01 = 0x01 := by
  constructor
  · intro h
    by_contra hcolour
    -- a controller whose register 0 is not that of the table
    have hcrtc := (h ⟨0, 0, fun _ => 0, 0, fun _ => registers 6 + 1, 0, fun _ => 0, 0, fun _ => 0,
      false⟩).crtc 0 (by decide)
    rw [(writeRegisters_elsewhere hcolour _).crtc] at hcrtc
    have hne : registers 6 + 1 = registers 6 := hcrtc
    simp at hne
  · intro hcolour s
    exact writeRegisters_programmed hcolour s

/-! ## §6. The screen. -/

/-- The table of the mode. -/
def modeTable (i : Nat) : UInt8 := g_320x200x256.getD i 0

theorem setMode_programmed (s : Adapter) : Programmed modeTable (SetMode 320 200 8 s).2 :=
  writeRegisters_programmed rfl s

/-- Two loops over the same numbers keep what their turns keep. -/
theorem forLoop_rel {σ τ : Type} {R : σ → τ → Prop} {f : Int32 → σ → σ} {g : Int32 → τ → τ}
    (hturn : ∀ i s t, R s t → R (f i s) (g i t)) (stop : UInt32) (i : Int32) (s : σ) (t : τ)
    (h : R s t) : R (forLoop stop f i s) (forLoop stop g i t) := by
  induction hn : stop.toNat - i.toUInt32.toNat using Nat.strongRecOn generalizing i s t with
  | _ n ih =>
  have hf : forLoop stop f i s = if i.toUInt32 < stop then forLoop stop f (i + 1) (f i s) else s := by
    rw [forLoop]
  have hg : forLoop stop g i t = if i.toUInt32 < stop then forLoop stop g (i + 1) (g i t) else t := by
    rw [forLoop]
  rw [hf, hg]
  split
  · rename_i hlt
    rw [UInt32.lt_iff_toNat_lt] at hlt
    have hnext := Vga.toNat_succ hlt stop.toNat_lt
    exact ih _ (by omega) (i + 1) _ _ (hturn i s t h) rfl
  · exact h

/-- The adapter holds the mode, and the memory is `m`. -/
def Shows (p : Screen) (m : Mem) : Prop := Programmed modeTable p.1 ∧ p.2 = m

theorem segment_eq {s : Adapter} (h : Programmed modeTable s) :
    GetFrameBufferSegment s = (0xA0000, { s with gcIndex := 0x06 }) := by
  have hregister : s.gc 0x06 = 0x05 := h.gc 6 (by decide)
  show (Vga.GetFrameBufferSegment (s.gc 0x06), { s with gcIndex := 0x06 }) = _
  rw [hregister]
  rfl

theorem putPixel_shows {p : Screen} {m : Mem} (h : Shows p m) (x y : Int32) (c : UInt8) :
    Shows (PutPixel x y c p) (Vga.PutPixel 0x05 x y c m) := by
  obtain ⟨hp, rfl⟩ := h
  unfold PutPixel Vga.PutPixel
  split
  · exact ⟨hp, rfl⟩
  · rw [segment_eq hp]
    exact ⟨⟨hp.misc, hp.seq, hp.crtc, hp.gc, hp.attr, hp.on⟩, rfl⟩

/-- A rectangle in the memory alone. -/
def paint (a : Rectangle) (m : Mem) : Mem := Vga.FillRectangle 0x05 a.x a.y a.w a.h a.r a.g a.b m

theorem fillRectangle_shows {p : Screen} {m : Mem} (h : Shows p m) (a : Rectangle) :
    Shows (FillRectangle a p) (paint a m) := by
  refine forLoop_rel (R := Shows) (fun Y s t hY => ?_) _ _ _ _ h
  exact forLoop_rel (R := Shows) (fun X s t hX => putPixel_shows hX X Y _) _ _ _ _ hY

/-- A rectangle leaves the memory outside the screen as it is. -/
theorem paint_outside (a : Rectangle) (m : Mem) {x : Nat}
    (hx : x < 0xA0000 ∨ 0xA0000 + 320 * 200 ≤ x) : paint a m x = m x := by
  have hpaints := Vga.forLoop_paints (fun Y => Vga.forLoop_paints
    (fun X => Vga.putPixel_paints 0x05 X Y (GetColorIndex a.r a.g a.b)) (a.x + a.w) a.x.toInt32)
    (a.y + a.h) a.y.toInt32
  refine hpaints.others m x ?_
  rintro ⟨Y, -, -, X, -, -, ⟨hX, hX', hY, hY'⟩, rfl⟩
  unfold Vga.pixelAddress at hx
  rw [show Vga.GetFrameBufferSegment 0x05 = 0xA0000 from rfl] at hx
  omega

theorem calls_show (calls : List Rectangle) {p : Screen} {m : Mem} (h : Shows p m) :
    Shows (calls.foldl (fun p a => FillRectangle a p) p) (calls.foldl (fun m a => paint a m) m) := by
  induction calls generalizing p m with
  | nil => exact h
  | cons a calls ih => exact ih (fillRectangle_shows h a)

theorem calls_outside (calls : List Rectangle) (m : Mem) {x : Nat}
    (hx : x < 0xA0000 ∨ 0xA0000 + 320 * 200 ≤ x) : calls.foldl (fun m a => paint a m) m x = m x := by
  induction calls generalizing m with
  | nil => rfl
  | cons a calls ih => exact (ih _).trans (paint_outside a m hx)

/-- **After `SetMode`, rectangles are painted on the screen**: from whatever state the adapter was
    in, every sequence of calls paints the segment at 0xA0000 as `FillRectangle` does, leaves the
    rest of the memory alone, and leaves the mode. -/
theorem screen_painted (s : Adapter) (m : Mem) (calls : List Rectangle) :
    let p := calls.foldl (fun p a => FillRectangle a p) ((SetMode 320 200 8 s).2, m)
    Programmed modeTable p.1
      ∧ p.2 = calls.foldl (fun m a => paint a m) m
      ∧ ∀ x, x < 0xA0000 ∨ 0xA0000 + 320 * 200 ≤ x → p.2 x = m x := by
  intro p
  obtain ⟨hmode, hmem⟩ : Shows p _ := calls_show calls ⟨setMode_programmed s, rfl⟩
  refine ⟨hmode, hmem, fun x hx => ?_⟩
  rw [hmem]
  exact calls_outside calls m hx

end SystemOS.Drivers.VgaMode
