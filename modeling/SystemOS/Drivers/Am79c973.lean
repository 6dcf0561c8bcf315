/-
  SystemOS.Drivers.Am79c973 — the send side of the driver of the network card.

  The object lies in byte memory at `this`.  Offsets are those of the i386 layout of
  `amd_am79c973 : Driver, InterruptHandler`: 16 bytes of the two bases, seven ports of 8 bytes, the
  packed block of 28 bytes that the card reads, then

      sendBufferDescr : 4   sendBufferDescrMemory : 2063   sendBuffers : 2063 rows of 8 bytes
      currentSendBuffer : 1

  and the same members for receiving.  What is said to the card through its ports is left out.
-/
import SystemOS.Lib.ByteMemory
import SystemOS.Lib.Words

namespace SystemOS.Drivers.Am79c973

open SystemOS.Lib.ByteMemory SystemOS.Lib.Words

/-! ## §1. The object. -/

variable (this : Nat)

/-- `sizeof(amd_am79c973)`. -/
def sizeofDriver : Nat := 37244

/-- `&sendBufferDescr`. -/
def sendBufferDescr : Nat := this + 100

/-- `&sendBufferDescrMemory[0]`. -/
def sendBufferDescrMemory : Nat := this + 104

/-- `&sendBuffers[i]`: the member is declared `uint8_t sendBuffers[2*1024+15][8]`, so that a row has
    8 bytes. -/
def sendBuffers (i : Nat) : Nat := this + 2167 + 8 * i

/-- `&currentSendBuffer`. -/
def currentSendBuffer : Nat := this + 18671

/-- `&recvBufferDescr`. -/
def recvBufferDescr : Nat := this + 18672

/-- `&recvBufferDescrMemory[0]`. -/
def recvBufferDescrMemory : Nat := this + 18676

/-- `&recvBuffers[i]`. -/
def recvBuffers (i : Nat) : Nat := this + 20739 + 8 * i

/-- `&currentRecvBuffer`. -/
def currentRecvBuffer : Nat := this + 37243

/-- `(a + 15) & ~(uint32_t)0xF`. -/
def align16 (a : Nat) : Nat := add32 a 15 &&& 0xFFFFFFF0

/-! ## §2. A `BufferDescriptor`, 16 bytes. -/

/-- `&ring[i]` for the ring whose pointer is stored at `ring`. -/
def descriptor (m : Mem) (ring i : Nat) : Nat := readWord m ring + 16 * i

def setAddress (m : Mem) (d v : Nat) : Mem := writeWord m d v

def setFlags (m : Mem) (d v : Nat) : Mem := writeWord m (d + 4) v

def setFlags2 (m : Mem) (d v : Nat) : Mem := writeWord m (d + 8) v

def setAvail (m : Mem) (d v : Nat) : Mem := writeWord m (d + 12) v

/-! ## §3. `amd_am79c973::amd_am79c973`. -/

/-- The body of the constructor's loop. -/
def initDescriptor (m : Mem) (i : Nat) : Mem :=
  let s := descriptor m (sendBufferDescr this) i
  let r := descriptor m (recvBufferDescr this) i
  let m := setAddress m s (align16 (sendBuffers this i))
  let m := setFlags m s (0x7FF ||| 0xF000)
  let m := setFlags2 m s 0
  let m := setAvail m s 0
  let m := setAddress m r (align16 (recvBuffers this i))
  let m := setFlags m r (0xF7FF ||| 0x80000000)
  let m := setFlags2 m r 0
  -- the send descriptor again, not the receive descriptor
  setAvail m s 0

/-- The constructor: the counters, the two pointers and the loop over the descriptors. -/
def construct (m : Mem) : Mem :=
  let m := writeByte m (currentSendBuffer this) 0
  let m := writeByte m (currentRecvBuffer this) 0
  let m := writeWord m (sendBufferDescr this) (align16 (sendBufferDescrMemory this))
  let m := writeWord m (recvBufferDescr this) (align16 (recvBufferDescrMemory this))
  (List.range 8).foldl (initDescriptor this) m

/-! ## §4. `amd_am79c973::Send`. -/

/-- The copy loop of `Send` with `n` bytes to go: from the last byte down to the first. -/
def copyDown (m : Mem) (src dst : Nat) : Nat → Mem
  | 0 => m
  | n + 1 => copyDown (writeByte m (dst + n) (m (src + n))) src dst n

/-- `Send(buffer, size)`. -/
def Send (m : Mem) (buffer : Nat) (size : Int) : Mem :=
  let sendDescriptor := (m (currentSendBuffer this)).toNat
  let m := writeByte m (currentSendBuffer this) (UInt8.ofNat ((sendDescriptor + 1) % 8))
  let size := if size > 1518 then 1518 else size
  let d := descriptor m (sendBufferDescr this) sendDescriptor
  let m := copyDown m buffer (readWord m d) size.toNat
  let m := setAvail m d 0
  let m := setFlags2 m d 0
  setFlags m d (0x8300F000 ||| (-size % 4096).toNat)

/-! ## §5. What the parts of it write. -/

variable {this}

/-- Rounding up to a multiple of 16, where the sum does not overflow. -/
theorem align16_eq {a : Nat} (h : a + 15 < 2 ^ 32) : align16 a = (a + 15) / 16 * 16 := by
  unfold align16
  rw [add32_eq h]
  have hshift := mask_shift (a + 15) 28 4
  have hlow := Nat.and_mod_two_pow (a := a + 15) (b := 0xFFFFFFF0) (n := 4)
  rw [show (2 ^ 28 - 1) <<< 4 = 0xFFFFFFF0 from rfl, Nat.shiftRight_eq_div_pow] at hshift
  rw [show 0xFFFFFFF0 % 2 ^ 4 = 0 from rfl, Nat.and_zero] at hlow
  omega

theorem copyDown_of_out {src dst n x : Nat} (m : Mem) (h : x < dst ∨ dst + n ≤ x) :
    copyDown m src dst n x = m x := by
  induction n generalizing m with
  | zero => rfl
  | succ n ih =>
    unfold copyDown
    rw [ih _ (by omega), writeByte_of_ne m _ (by omega)]

/-- The bytes are copied where source and destination lie apart. -/
theorem copyDown_at {src dst n i : Nat} (m : Mem) (h : src + n ≤ dst ∨ dst + n ≤ src)
    (hi : i < n) : copyDown m src dst n (dst + i) = m (src + i) := by
  induction n generalizing m with
  | zero => omega
  | succ n ih =>
    unfold copyDown
    by_cases hlast : i = n
    · subst hlast
      rw [copyDown_of_out _ (by omega)]
      exact writeByte_self m _ _
    · rw [ih _ (by omega) (by omega), writeByte_of_ne m _ (by omega)]

/-- The loop body writes the two descriptors of its index only. -/
theorem initDescriptor_of_out {m : Mem} {i x : Nat}
    (hs : x < descriptor m (sendBufferDescr this) i ∨ descriptor m (sendBufferDescr this) i + 16 ≤ x)
    (hr : x < descriptor m (recvBufferDescr this) i ∨ descriptor m (recvBufferDescr this) i + 16 ≤ x) :
    initDescriptor this m i x = m x := by
  unfold initDescriptor setAddress setFlags setFlags2 setAvail
  repeat rw [writeWord_of_out _ _ (by omega)]

/-- The buffer address that the loop body stores in a send descriptor. -/
theorem initDescriptor_address {m : Mem} {i : Nat}
    (h : descriptor m (sendBufferDescr this) i + 16 ≤ descriptor m (recvBufferDescr this) i) :
    readWord (initDescriptor this m i) (descriptor m (sendBufferDescr this) i)
      = align16 (sendBuffers this i) := by
  unfold initDescriptor setAddress setFlags setFlags2 setAvail
  simp only
  iterate 7 rw [read_write_apart _ _ (by omega)]
  apply read_write_self
  unfold align16
  exact lt_of_le_of_lt Nat.and_le_right (by decide)

end SystemOS.Drivers.Am79c973
