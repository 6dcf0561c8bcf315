/-
  SystemOS.Drivers.ReceiveRing — the receive side of the driver of the network card.

  The card stores a frame in the buffer of its next descriptor and clears the ownership bit there;
  the interrupt handler prints the frames up to the first descriptor that the card owns, and hands
  each descriptor back.  The two run side by side: a frame may arrive before, within or after the
  loop of `Receive`.

  Of the handler's steps the reading of the status register, each turn of the loop and the
  acknowledgement are one step each.  What the registers answer is left to the environment.

  Main results:
    * `Received`            — the ring is a queue of frames, and the rows hold their bytes laid over
      one another.
    * `received_reachable`  — this survives every step of the card and of the handler.
-/
import SystemOS.Drivers.SendRing
import SystemOS.Kernel.Console
import SystemOS.Lib.HandoverRing

namespace SystemOS.Drivers.ReceiveRing

open SystemOS.Lib.ByteMemory SystemOS.Lib.Overlay SystemOS.Lib.Transition SystemOS.Lib.HandoverRing
open SystemOS.Kernel.Console SystemOS.Drivers.Am79c973 SystemOS.Drivers.SendRing

/-! ## §1. The code. -/

variable (this : Nat)

/-- `recvBufferDescr[currentRecvBuffer]`. -/
def currentDescriptor (m : Mem) : Nat :=
  descriptor m (recvBufferDescr this) (m (currentRecvBuffer this)).toNat

/-- `flags` of a descriptor. -/
def flagsAt (m : Mem) (d : Nat) : Nat := readWord m (d + 4)

/-- The test of the loop in `Receive`: the card has given the descriptor away. -/
def Given (flags : Nat) : Prop := flags &&& 0x80000000 = 0

/-- No error, and the frame starts and ends in this buffer. -/
def Whole (flags : Nat) : Prop := flags &&& 0x40000000 = 0 ∧ flags &&& 0x03000000 = 0x03000000

instance Given.decidable (flags : Nat) : Decidable (Given flags) := inferInstanceAs (Decidable (_ = _))

instance Whole.decidable (flags : Nat) : Decidable (Whole flags) := inferInstanceAs (Decidable (_ ∧ _))

/-- "remove checksum". -/
def sizeOf (flags : Nat) : Nat :=
  let size := flags &&& 0xFFF
  if size > 64 then size - 4 else size

/-- What one turn of the loop prints. -/
def frameText (flags : Nat) (bytes : List UInt8) : Text := if Whole flags then dump bytes else []

/-- One turn of the loop, with its increment. -/
def receiveOne (m : Mem) : Mem × Text :=
  let current := (m (currentRecvBuffer this)).toNat
  let d := currentDescriptor this m
  let flags := flagsAt m d
  let printed := frameText flags (frameAt m (readWord m d) (sizeOf flags))
  let m := setFlags2 m d 0
  let m := setFlags m d 0x8000F7FF
  (writeByte m (currentRecvBuffer this) (UInt8.ofNat ((current + 1) % 8)), printed)

/-- The loop of `Receive`, at most `fuel` turns. -/
def receiveLoop : Nat → Mem → Option (Mem × Text)
  | 0, m => if Given (flagsAt m (currentDescriptor this m)) then none else some (m, [])
  | fuel + 1, m =>
    if Given (flagsAt m (currentDescriptor this m)) then
      let (m, printed) := receiveOne this m
      (receiveLoop fuel m).map fun (m, rest) => (m, printed ++ rest)
    else some (m, [])

/-- What `HandleInterrupt` prints before the loop, where `temp` is the status register. -/
def statusText (temp : Nat) : Text :=
  text "INTERRUPT FROM AMD am79c973\n" ++
    (if temp &&& 0x8000 = 0x8000 then text "AMD am79c973 ERROR\n" else []) ++
    (if temp &&& 0x2000 = 0x2000 then text "AMD am79c973 COLLISION ERROR\n" else []) ++
    (if temp &&& 0x1000 = 0x1000 then text "AMD am79c973 MISSED FRAME\n" else []) ++
    (if temp &&& 0x0800 = 0x0800 then text "AMD am79c973 MEMORY ERROR\n" else []) ++
    (if temp &&& 0x0400 = 0x0400 then text "AMD am79c973 DATA RECEIVED\n" else [])

/-- What it prints after the loop. -/
def closingText (temp : Nat) : Text :=
  (if temp &&& 0x0200 = 0x0200 then text "AMD am79c973 DATA SENT\n" else []) ++
    (if temp &&& 0x0100 = 0x0100 then text "AMD am79c973 INIT DONE\n" else [])

/-- `HandleInterrupt`, when the card stores nothing meanwhile. -/
def HandleInterrupt (temp : Nat) (m : Mem) : Option (Mem × Text) :=
  if temp &&& 0x0400 = 0x0400 then
    (receiveLoop this 8 m).map fun (m, printed) => (m, statusText temp ++ printed ++ closingText temp)
  else some (m, statusText temp ++ closingText temp)

/-! ## §2. The card and the handler, side by side. -/

/-- A frame as the card stores it: the two status words of the descriptor and the bytes. -/
structure Frame where
  flags : Nat
  flags2 : Nat
  bytes : List UInt8

/-- What the card does: the ownership bit of a stored frame is clear, the half of the status word with
    the length of the buffer is as the driver wrote it (the length of the frame goes to `flags2`),
    and the bytes fit in the `4096 - 0x7FF` bytes that the driver has announced there. -/
structure Frame.Stored (f : Frame) : Prop where
  given : Given f.flags
  flags_lt : f.flags < 2 ^ 32
  kept : f.flags &&& 0xFFFF = 0xF7FF
  fits : f.bytes.length ≤ 2049

/-- Where the interrupt handler is; `temp` is the status register as it was read. -/
inductive Phase
  | idle
  | looping (temp : Nat)
  | leaving (temp : Nat)

/-- The memory, the card's next descriptor, the bit RINT of its status register, the handler, and
    what was printed; `delivered` and `taken` record the frames stored and the turns made so far. -/
structure State where
  mem : Mem
  next : Nat
  rint : Bool
  phase : Phase
  printed : Text
  delivered : List Frame
  taken : Nat

/-- The frames that were stored and not printed yet. -/
def State.waiting (s : State) : List Frame := s.delivered.drop s.taken

inductive Event
  | elsewhere (m : Mem)
  | deliver (f : Frame)
  | enter (temp : Nat)
  | turn
  | leave
  | acknowledge

/-- The descriptors: the card was told this address in `initBlock`. -/
def ring : Nat := align16 (recvBufferDescrMemory this)

/-- The rows of `recvBuffers`. -/
def InRecvRows (x : Nat) : Prop := this + 20739 ≤ x ∧ x < this + 37243

/-- The bytes that only the card and the receive side of the driver write. -/
def RecvOwned (x : Nat) : Prop :=
  (recvBufferDescr this ≤ x ∧ x < recvBufferDescr this + 4) ∨
  (ring this ≤ x ∧ x < ring this + 128) ∨ InRecvRows this x ∨ x = currentRecvBuffer this

/-- The card stores `f` at descriptor `i`; the ownership bit comes last. -/
def store (m : Mem) (i : Nat) (f : Frame) : Mem :=
  let d := ring this + 16 * i
  let m := writeBytes m (readWord m d) f.bytes
  setFlags (setFlags2 m d f.flags2) d f.flags

/-- The receive interrupt bit of the status register. -/
def Rint (temp : Nat) : Prop := temp &&& 0x0400 = 0x0400

instance Rint.decidable (temp : Nat) : Decidable (Rint temp) := inferInstanceAs (Decidable (_ = _))

/-- One step of the card, of the handler, or of the rest of the system. -/
def step (s : State) : Event → State → Prop
  | .elsewhere m, s' => (∀ x, RecvOwned this x → m x = s.mem x) ∧ s' = { s with mem := m }
  | .deliver f, s' =>
    f.Stored ∧ ¬ Given (flagsAt s.mem (ring this + 16 * s.next)) ∧
      s' = { s with
        mem := store this s.mem s.next f
        next := (s.next + 1) % 8
        rint := true
        delivered := s.delivered ++ [f] }
  | .enter temp, s' =>
    s.phase = .idle ∧ (Rint temp ↔ s.rint = true) ∧
      s' = { s with
        phase := if Rint temp then .looping temp else .leaving temp
        printed := s.printed ++ statusText temp }
  | .turn, s' =>
    (∃ temp, s.phase = .looping temp) ∧ Given (flagsAt s.mem (currentDescriptor this s.mem)) ∧
      s' = { s with
        mem := (receiveOne this s.mem).1
        printed := s.printed ++ (receiveOne this s.mem).2
        taken := s.taken + 1 }
  | .leave, s' =>
    ∃ temp, s.phase = .looping temp ∧ ¬ Given (flagsAt s.mem (currentDescriptor this s.mem)) ∧
      s' = { s with phase := .leaving temp }
  | .acknowledge, s' =>
    -- writing a one to a bit of the status register clears it
    ∃ temp, s.phase = .leaving temp ∧
      s' = { s with
        phase := .idle
        rint := if Rint temp then false else s.rint
        printed := s.printed ++ closingText temp }

/-- The driver of an object at `this`, from its construction on. -/
def receiveSystem : System State Event where
  init s := ∃ m, s = ⟨construct this m, 0, false, .idle, [], [], 0⟩
  step := step this

/-! ## §3. Addresses. -/

/-- The address that the constructor stores in receive descriptor `i`. -/
def recvAddress (i : Nat) : Nat := align16 (recvBuffers this i)

variable {this} {m m' : Mem} {s s' : State}

theorem ring_eq (h : Lies this) : ring this = (this + 18691) / 16 * 16 := recvRing_eq h

theorem recvAddress_eq (h : Lies this) {i : Nat} (hi : i < 8) :
    recvAddress this i = (this + 20754 + 8 * i) / 16 * 16 := by
  unfold Lies sizeofDriver at h
  unfold recvAddress recvBuffers
  rw [align16_eq (by omega), show this + 20739 + 8 * i + 15 = this + 20754 + 8 * i by omega]

/-- The bytes of a frame lie in the rows. -/
theorem inRecvRows (h : Lies this) {i j : Nat} (hi : i < 8) (hj : j < 2049) :
    InRecvRows this (recvAddress this i + j) := by
  have haddr := recvAddress_eq h hi
  unfold InRecvRows
  omega

/-- What slot `i` of the ring holds: the status word, unless the card owns the descriptor. -/
def slotAt (this : Nat) (m : Mem) (i : Nat) : Option Nat :=
  if Given (flagsAt m (ring this + 16 * i)) then some (flagsAt m (ring this + 16 * i)) else none

theorem slotAt_eq_none {i : Nat} :
    slotAt this m i = none ↔ ¬ Given (flagsAt m (ring this + 16 * i)) := by
  unfold slotAt
  split
  · next h => exact iff_of_false (Option.some_ne_none _) (not_not_intro h)
  · next h => exact iff_of_true rfl h

theorem slotAt_of_given {i : Nat} (h : Given (flagsAt m (ring this + 16 * i))) :
    slotAt this m i = some (flagsAt m (ring this + 16 * i)) := if_pos h

theorem slotAt_congr {i : Nat}
    (h : flagsAt m' (ring this + 16 * i) = flagsAt m (ring this + 16 * i)) :
    slotAt this m' i = slotAt this m i := by
  unfold slotAt
  rw [h]

/-! ## §4. The ring as the constructor leaves it. -/

/-- The pointer and the buffer addresses. -/
structure Base (this : Nat) (m : Mem) : Prop where
  pointer : readWord m (recvBufferDescr this) = ring this
  address : ∀ i < 8, readWord m (ring this + 16 * i) = recvAddress this i

theorem Base.congr (h : Base this m)
    (hptr : ∀ x, recvBufferDescr this ≤ x → x < recvBufferDescr this + 4 → m' x = m x)
    (haddr : ∀ i < 8, ∀ x, ring this + 16 * i ≤ x → x < ring this + 16 * i + 4 → m' x = m x) :
    Base this m' := by
  constructor
  · rw [readWord_congr hptr]
    exact h.pointer
  · intro i hi
    rw [readWord_congr (haddr i hi)]
    exact h.address i hi

/-- The loop body makes receive descriptor `i`. -/
theorem initDescriptor_recv {i : Nat}
    (h : descriptor m (sendBufferDescr this) i + 16 ≤ descriptor m (recvBufferDescr this) i) :
    readWord (initDescriptor this m i) (descriptor m (recvBufferDescr this) i) = recvAddress this i ∧
      readWord (initDescriptor this m i) (descriptor m (recvBufferDescr this) i + 4)
        = 0x8000F7FF := by
  unfold initDescriptor setAddress setFlags setFlags2 setAvail
  simp only
  constructor
  · rw [read_write_apart _ _ (by omega), read_write_apart _ _ (by omega),
      read_write_apart _ _ (by omega)]
    apply read_write_self
    unfold align16
    exact lt_of_le_of_lt Nat.and_le_right (by decide)
  · rw [read_write_apart _ _ (by omega), read_write_apart _ _ (by omega)]
    exact read_write_self _ _ (by decide)

/-- The receive ring while the constructor's loop has filled `n` descriptors. -/
structure Filling (this : Nat) (m : Mem) (n : Nat) : Prop where
  send : readWord m (sendBufferDescr this) = align16 (sendBufferDescrMemory this)
  recv : readWord m (recvBufferDescr this) = ring this
  current : m (currentRecvBuffer this) = 0
  filled : ∀ i < n, readWord m (ring this + 16 * i) = recvAddress this i ∧
    flagsAt m (ring this + 16 * i) = 0x8000F7FF

theorem Filling.next {n : Nat} (h : Filling this m n) (hthis : Lies this) (hn : n < 8) :
    Filling this (initDescriptor this m n) (n + 1) := by
  have hs : descriptor m (sendBufferDescr this) n = (this + 119) / 16 * 16 + 16 * n := by
    unfold Am79c973.descriptor
    rw [h.send, sendRing_eq hthis]
  have hring := ring_eq hthis
  have hr : descriptor m (recvBufferDescr this) n = ring this + 16 * n := by
    unfold Am79c973.descriptor
    rw [h.recv]
  have hout : ∀ x, (x < (this + 119) / 16 * 16 + 16 * n ∨ (this + 119) / 16 * 16 + 16 * n + 16 ≤ x) →
      (x < ring this + 16 * n ∨ ring this + 16 * n + 16 ≤ x) →
      initDescriptor this m n x = m x := by
    intro x hxs hxr
    exact initDescriptor_of_out (by rw [hs]; exact hxs) (by rw [hr]; exact hxr)
  constructor
  · rw [readWord_congr fun x hx hx' => hout x (by unfold sendBufferDescr at *; omega)
      (by unfold sendBufferDescr at *; omega)]
    exact h.send
  · rw [readWord_congr fun x hx hx' => hout x (by unfold recvBufferDescr at *; omega)
      (by unfold recvBufferDescr at *; omega)]
    exact h.recv
  · rw [hout _ (by unfold currentRecvBuffer; omega) (by unfold currentRecvBuffer; omega)]
    exact h.current
  · intro i hi
    by_cases hlast : i = n
    · subst hlast
      unfold flagsAt
      rw [← hr]
      exact initDescriptor_recv (by omega)
    · unfold flagsAt
      rw [readWord_congr fun x hx hx' => hout x (by omega) (by omega),
        readWord_congr fun x hx hx' => hout x (by omega) (by omega)]
      exact h.filled i (by omega)

theorem construct_filling (hthis : Lies this) (m : Mem) : Filling this (construct this m) 8 := by
  have hloop : ∀ (m₀ : Mem) (n : Nat), Filling this m₀ 0 → n ≤ 8 →
      Filling this ((List.range n).foldl (initDescriptor this) m₀) n := by
    intro m₀ n h₀
    induction n with
    | zero => exact fun _ => h₀
    | succ n ih =>
      intro hn
      rw [List.range_succ, List.foldl_append]
      exact (ih (by omega)).next hthis (by omega)
  unfold construct
  apply hloop _ 8 _ le_rfl
  have hs := sendRing_eq hthis
  have hr := ring_eq hthis
  unfold Lies sizeofDriver at hthis
  unfold ring at hr
  constructor
  · rw [read_write_apart _ _ (by unfold sendBufferDescr recvBufferDescr; omega)]
    exact read_write_self _ _ (by omega)
  · exact read_write_self _ _ (by omega)
  · rw [writeWord_of_out _ _ (by unfold currentRecvBuffer recvBufferDescr; omega),
      writeWord_of_out _ _ (by unfold currentRecvBuffer sendBufferDescr; omega)]
    exact writeByte_self _ _ _
  · intro i hi
    omega

/-! ## §5. What the card and the loop write. -/

section Store

variable {i : Nat} {f : Frame}

theorem store_of_out (h : Base this m) (hi : i < 8) {x : Nat}
    (hx : x < recvAddress this i ∨ recvAddress this i + f.bytes.length ≤ x)
    (hx' : x < ring this + 16 * i + 4 ∨ ring this + 16 * i + 12 ≤ x) : store this m i f x = m x := by
  unfold store setFlags setFlags2
  rw [writeWord_of_out _ _ (by omega), writeWord_of_out _ _ (by omega), h.address i hi,
    writeBytes_of_out m hx]

theorem store_flags (hf : f.Stored) : flagsAt (store this m i f) (ring this + 16 * i) = f.flags :=
  read_write_self _ _ hf.flags_lt

/-- In the rows, the card writes the bytes of the frame. -/
theorem store_rows (h : Base this m) (hthis : Lies this) (hi : i < 8) {x : Nat}
    (hx : InRecvRows this x) :
    store this m i f x = writeBytes m (recvAddress this i) f.bytes x := by
  have hring := ring_eq hthis
  unfold InRecvRows at hx
  unfold store setFlags setFlags2
  rw [writeWord_of_out _ _ (by omega), writeWord_of_out _ _ (by omega), h.address i hi]

/-- Everything that lies before the rows and is not a status word of the descriptor stays. -/
theorem store_below (h : Base this m) (hthis : Lies this) (hi : i < 8) {x : Nat}
    (hx : x < this + 20739) (hx' : x < ring this + 16 * i + 4 ∨ ring this + 16 * i + 12 ≤ x) :
    store this m i f x = m x := by
  have haddr := recvAddress_eq hthis hi
  exact store_of_out h hi (by omega) hx'

theorem Base.store (h : Base this m) (hthis : Lies this) (hi : i < 8) :
    Base this (store this m i f) := by
  have hring := ring_eq hthis
  refine h.congr (fun x hx hx' => ?_) (fun j hj x hx hx' => ?_)
  · exact store_below h hthis hi (by unfold recvBufferDescr at *; omega)
      (by unfold recvBufferDescr at *; omega)
  · exact store_below h hthis hi (by omega) (by omega)

end Store

section Turn

variable {i : Nat}

theorem currentDescriptor_eq (h : Base this m) (hcur : m (currentRecvBuffer this) = UInt8.ofNat i)
    (hi : i < 8) : currentDescriptor this m = ring this + 16 * i := by
  unfold currentDescriptor descriptor
  rw [h.pointer, hcur, UInt8.toNat_ofNat', Nat.mod_eq_of_lt (by omega)]

/-- A turn with its pointers resolved. -/
theorem receiveOne_eq (h : Base this m) (hcur : m (currentRecvBuffer this) = UInt8.ofNat i)
    (hi : i < 8) :
    receiveOne this m
      = (writeByte (setFlags (setFlags2 m (ring this + 16 * i) 0) (ring this + 16 * i) 0x8000F7FF)
          (currentRecvBuffer this) (UInt8.ofNat ((i + 1) % 8)),
        frameText (flagsAt m (ring this + 16 * i))
          (frameAt m (recvAddress this i) (sizeOf (flagsAt m (ring this + 16 * i))))) := by
  have hnat : (UInt8.ofNat i).toNat = i := by
    rw [UInt8.toNat_ofNat', Nat.mod_eq_of_lt (by omega)]
  unfold receiveOne
  simp only
  rw [currentDescriptor_eq h hcur hi, h.address i hi, hcur, hnat]

theorem receiveOne_mem (h : Base this m) (hcur : m (currentRecvBuffer this) = UInt8.ofNat i)
    (hi : i < 8) :
    (receiveOne this m).1
      = writeByte (setFlags (setFlags2 m (ring this + 16 * i) 0) (ring this + 16 * i) 0x8000F7FF)
          (currentRecvBuffer this) (UInt8.ofNat ((i + 1) % 8)) :=
  congrArg Prod.fst (receiveOne_eq h hcur hi)

theorem receiveOne_of_out (h : Base this m) (hcur : m (currentRecvBuffer this) = UInt8.ofNat i)
    (hi : i < 8) {x : Nat} (hx : x < ring this + 16 * i + 4 ∨ ring this + 16 * i + 12 ≤ x)
    (hx' : x ≠ currentRecvBuffer this) : (receiveOne this m).1 x = m x := by
  rw [receiveOne_mem h hcur hi, writeByte_of_ne _ _ hx']
  unfold setFlags setFlags2
  rw [writeWord_of_out _ _ (by omega), writeWord_of_out _ _ (by omega)]

/-- A turn hands its descriptor back and goes on to the next. -/
theorem receiveOne_marks (h : Base this m) (hthis : Lies this)
    (hcur : m (currentRecvBuffer this) = UInt8.ofNat i) (hi : i < 8) :
    flagsAt (receiveOne this m).1 (ring this + 16 * i) = 0x8000F7FF ∧
      (receiveOne this m).1 (currentRecvBuffer this) = UInt8.ofNat ((i + 1) % 8) := by
  have hring := ring_eq hthis
  rw [receiveOne_mem h hcur hi]
  constructor
  · unfold flagsAt
    rw [read_writeByte_apart _ _ (by unfold currentRecvBuffer; omega)]
    exact read_write_self _ _ (by decide)
  · exact writeByte_self _ _ _

theorem Base.receiveOne (h : Base this m) (hthis : Lies this)
    (hcur : m (currentRecvBuffer this) = UInt8.ofNat i) (hi : i < 8) :
    Base this (receiveOne this m).1 := by
  have hring := ring_eq hthis
  refine h.congr (fun x hx hx' => ?_) (fun j hj x hx hx' => ?_)
  · exact receiveOne_of_out h hcur hi (by unfold recvBufferDescr at *; omega)
      (by unfold recvBufferDescr currentRecvBuffer at *; omega)
  · exact receiveOne_of_out h hcur hi (by omega) (by unfold currentRecvBuffer; omega)

end Turn

/-! ## §6. The ring is a queue. -/

/-- The frames with the buffer each was stored in. -/
def writes (this : Nat) (fs : List Frame) : List Write :=
  fs.mapIdx fun p f => (recvAddress this (p % 8), f.bytes)

theorem writes_append (fs : List Frame) (f : Frame) :
    writes this (fs ++ [f]) = writes this fs ++ [(recvAddress this (fs.length % 8), f.bytes)] := by
  unfold writes
  rw [List.mapIdx_append]
  simp

/-- The ring holds the waiting frames, from the driver's descriptor to the card's, and the rows hold
    the bytes of all frames laid over one another. -/
structure Received (this : Nat) (s : State) : Prop where
  base : Base this s.mem
  current : s.mem (currentRecvBuffer this) = UInt8.ofNat (s.taken % 8)
  next : s.next = s.delivered.length % 8
  taken_le : s.taken ≤ s.delivered.length
  stored : ∀ f ∈ s.delivered, f.Stored
  handed : Handed 8 (slotAt this s.mem) (s.taken % 8) (s.waiting.map Frame.flags)
  rows : ∃ m₀, ∀ x, InRecvRows this x → s.mem x = overlay m₀ (writes this s.delivered) x

theorem waiting_length (s : State) : s.waiting.length = s.delivered.length - s.taken :=
  List.length_drop

/-- The card's descriptor is the one after the waiting frames. -/
theorem Received.next_eq (h : Received this s) :
    s.next = (s.taken % 8 + (s.waiting.map Frame.flags).length) % 8 := by
  have hle := h.taken_le
  rw [h.next, List.length_map, waiting_length, Nat.mod_add_mod]
  congr 1
  omega

/-- The card can store a frame exactly when fewer than eight wait. -/
theorem Received.room_iff (h : Received this s) :
    ¬ Given (flagsAt s.mem (ring this + 16 * s.next)) ↔ s.waiting.length < 8 := by
  rw [← slotAt_eq_none, h.next_eq, h.handed.free_iff, List.length_map]

/-- The loop goes on exactly when a frame waits. -/
theorem Received.given_iff (h : Received this s) :
    Given (flagsAt s.mem (currentDescriptor this s.mem)) ↔ s.waiting ≠ [] := by
  rw [currentDescriptor_eq h.base h.current (Nat.mod_lt _ (by omega)), ← not_iff_not,
    ← slotAt_eq_none, h.handed.taken_iff, List.map_eq_nil_iff, not_not]

theorem Received.start (hthis : Lies this) (m : Mem) :
    Received this ⟨construct this m, 0, false, .idle, [], [], 0⟩ := by
  have h := construct_filling hthis m
  -- what the constructor wrote stays folded
  generalize construct this m = m₁ at h ⊢
  refine ⟨⟨h.recv, fun i hi => (h.filled i hi).1⟩, h.current, rfl, le_rfl, ?_, ?_, m₁, fun _ _ => rfl⟩
  · intro f hf
    cases hf
  · apply Handed.empty (Nat.mod_lt _ (by decide))
    intro i hi
    rw [slotAt_eq_none, (h.filled i hi).2]
    decide

theorem Received.elsewhere (h : Received this s) (hm : ∀ x, RecvOwned this x → m x = s.mem x) :
    Received this { s with mem := m } := by
  obtain ⟨m₀, hrows⟩ := h.rows
  refine ⟨h.base.congr (fun x hx hx' => hm x (.inl ⟨hx, hx'⟩))
      (fun i hi x hx hx' => hm x (.inr (.inl ⟨by omega, by omega⟩))), ?_, h.next, h.taken_le,
    h.stored, h.handed.congr fun i hi => slotAt_congr ?_, m₀, fun x hx => ?_⟩
  · rw [← h.current]
    exact hm _ (.inr (.inr (.inr rfl)))
  · exact readWord_congr fun x hx hx' => hm x (.inr (.inl ⟨by omega, by omega⟩))
  · rw [← hrows x hx]
    exact hm x (.inr (.inr (.inl hx)))

theorem Received.deliver (h : Received this s) (hthis : Lies this) {f : Frame} (hf : f.Stored)
    (hroom : ¬ Given (flagsAt s.mem (ring this + 16 * s.next))) :
    Received this { s with
      mem := store this s.mem s.next f
      next := (s.next + 1) % 8
      rint := true
      delivered := s.delivered ++ [f] } := by
  have hring := ring_eq hthis
  have hnext : s.next < 8 := by
    rw [h.next]
    exact Nat.mod_lt _ (by omega)
  have hle := h.taken_le
  obtain ⟨m₀, hrows⟩ := h.rows
  refine ⟨h.base.store hthis hnext, ?_, ?_, ?_, ?_, ?_, m₀, ?_⟩
  · rw [← h.current]
    have haddr := recvAddress_eq hthis hnext
    have hfits := hf.fits
    exact store_of_out h.base hnext (by unfold currentRecvBuffer; omega)
      (by unfold currentRecvBuffer; omega)
  · rw [h.next, List.length_append, List.length_singleton, Nat.mod_add_mod]
  · show s.taken ≤ (s.delivered ++ [f]).length
    rw [List.length_append]
    omega
  · intro g hg
    rcases List.mem_append.mp hg with hg | hg
    · exact h.stored g hg
    · rw [List.mem_singleton.mp hg]
      exact hf
  · -- the card fills the slot after the waiting frames
    have hwaiting : State.waiting { s with
        mem := store this s.mem s.next f
        next := (s.next + 1) % 8
        rint := true
        delivered := s.delivered ++ [f] } = s.waiting ++ [f] :=
      List.drop_append_of_le_length hle
    rw [hwaiting, List.map_append]
    refine h.handed.put ?_ ?_ ?_
    · rw [List.length_map]
      exact h.room_iff.mp hroom
    · rw [← h.next_eq, slotAt_of_given, store_flags hf]
      rw [store_flags hf]
      exact hf.given
    · intro j hj hne
      rw [← h.next_eq] at hne
      exact slotAt_congr (readWord_congr fun x hx hx' =>
        store_below h.base hthis hnext (by omega) (by omega))
  · intro x hx
    show store this s.mem s.next f x = overlay m₀ (writes this (s.delivered ++ [f])) x
    rw [writes_append, overlay_append, overlay_cons, overlay_nil, store_rows h.base hthis hnext hx,
      h.next]
    exact writeBytes_congr _ (hrows x hx)

theorem Received.turn (h : Received this s) (hthis : Lies this)
    (hgiven : Given (flagsAt s.mem (currentDescriptor this s.mem))) (printed : Text) :
    Received this { s with
      mem := (receiveOne this s.mem).1
      printed := printed
      taken := s.taken + 1 } := by
  have hring := ring_eq hthis
  have hi : s.taken % 8 < 8 := Nat.mod_lt _ (by omega)
  obtain ⟨hback, hcur⟩ := receiveOne_marks h.base hthis h.current hi
  obtain ⟨f, rest, hwaiting⟩ := List.exists_cons_of_ne_nil (h.given_iff.mp hgiven)
  have hlen : s.delivered.length - s.taken = rest.length + 1 := by
    rw [← waiting_length, hwaiting, List.length_cons]
  have hhanded := h.handed
  rw [hwaiting, List.map_cons] at hhanded
  obtain ⟨m₀, hrows⟩ := h.rows
  refine ⟨h.base.receiveOne hthis h.current hi, ?_, h.next, ?_, h.stored, ?_, m₀, ?_⟩
  · simp only
    rw [hcur, Nat.mod_add_mod]
  · show s.taken + 1 ≤ s.delivered.length
    omega
  · -- the driver frees the slot of the oldest frame
    have hrest : s.delivered.drop (s.taken + 1) = rest := by
      rw [← List.drop_drop]
      show (s.waiting).drop 1 = rest
      rw [hwaiting]
      rfl
    show Handed 8 (slotAt this (receiveOne this s.mem).1) ((s.taken + 1) % 8)
      ((s.delivered.drop (s.taken + 1)).map Frame.flags)
    rw [hrest, ← Nat.mod_add_mod]
    refine (hhanded.take ?_ ?_).2
    · rw [slotAt_eq_none, hback]
      decide
    · intro j hj hne
      exact slotAt_congr (readWord_congr fun x hx hx' =>
        receiveOne_of_out h.base h.current hi (by omega) (by unfold currentRecvBuffer; omega))
  · intro x hx
    show (receiveOne this s.mem).1 x = _
    rw [← hrows x hx]
    unfold InRecvRows at hx
    exact receiveOne_of_out h.base h.current hi (by omega) (by unfold currentRecvBuffer; omega)

theorem Received.step (hs : Received this s) (hthis : Lies this) {e : Event}
    (hstep : step this s e s') : Received this s' := by
  cases e with
  | elsewhere m =>
    obtain ⟨hm, rfl⟩ := hstep
    exact hs.elsewhere hm
  | deliver f =>
    obtain ⟨hf, hroom, rfl⟩ := hstep
    exact hs.deliver hthis hf hroom
  | enter temp =>
    obtain ⟨_, _, rfl⟩ := hstep
    exact ⟨hs.base, hs.current, hs.next, hs.taken_le, hs.stored, hs.handed, hs.rows⟩
  | turn =>
    obtain ⟨_, hgiven, rfl⟩ := hstep
    exact hs.turn hthis hgiven _
  | leave =>
    obtain ⟨_, _, _, rfl⟩ := hstep
    exact ⟨hs.base, hs.current, hs.next, hs.taken_le, hs.stored, hs.handed, hs.rows⟩
  | acknowledge =>
    obtain ⟨_, _, rfl⟩ := hstep
    exact ⟨hs.base, hs.current, hs.next, hs.taken_le, hs.stored, hs.handed, hs.rows⟩

/-- **The ring is a queue of at most eight frames**, over any run of the card and the handler. -/
theorem received_reachable (hthis : Lies this) (h : (receiveSystem this).Reachable s) :
    Received this s := by
  refine h.invariant ?_ fun s e s' hs hstep => hs.step hthis hstep
  rintro s ⟨m, rfl⟩
  exact .start hthis m

end SystemOS.Drivers.ReceiveRing
