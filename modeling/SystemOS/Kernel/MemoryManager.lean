/-
  SystemOS.Kernel.MemoryManager — the kernel heap of `memorymanagement.cpp`, on raw memory bytes.

  A `MemoryChunk` is the 16 bytes in front of a payload:

      next : 4   prev : 4   allocated : 1 (+3 padding)   size : 4

  (`-m32`: pointers and `size_t` are 32 bits wide.)  The chunk list lives in the memory it manages,
  so every header access below reads or writes bytes; pointer and size arithmetic is modulo
  `2 ^ 32`, as compiled.
-/
import SystemOS.Lib.ByteMemory

namespace SystemOS.Kernel.MemoryManager

open SystemOS.Lib.ByteMemory

/-! ## §1. Chunk headers. -/

/-- `sizeof(MemoryChunk)`. -/
def sizeofMemoryChunk : Nat := 16

/-- A chunk header, as read from memory. -/
structure MemoryChunk where
  next : Nat
  prev : Nat
  allocated : Bool
  size : Nat
deriving DecidableEq, Repr

/-- The header at address `c`.  A `bool` is true when its byte is not zero. -/
def chunkAt (m : Mem) (c : Nat) : MemoryChunk where
  next := readWord m c
  prev := readWord m (c + 4)
  allocated := m (c + 8) != 0
  size := readWord m (c + 12)

/-- `c->next = v`. -/
def setNext (m : Mem) (c v : Nat) : Mem := writeWord m c v

/-- `c->prev = v`. -/
def setPrev (m : Mem) (c v : Nat) : Mem := writeWord m (c + 4) v

/-- `c->allocated = v`. -/
def setAllocated (m : Mem) (c : Nat) (v : Bool) : Mem := writeByte m (c + 8) (if v then 1 else 0)

/-- `c->size = v`. -/
def setSize (m : Mem) (c v : Nat) : Mem := writeWord m (c + 12) v

/-! ## §2. `MemoryManager`. -/

/-- A `MemoryManager` object (its one field `first`) with the memory around it. -/
structure Heap where
  mem : Mem
  first : Nat

/-- `MemoryManager::MemoryManager(size_t start, size_t size)`. -/
def init (mem : Mem) (start size : Nat) : Heap :=
  if size < sizeofMemoryChunk then { mem := mem, first := 0 }
  else
    let mem := setAllocated mem start false
    let mem := setPrev mem start 0
    let mem := setNext mem start 0
    let mem := setSize mem start (sub32 size sizeofMemoryChunk)
    { mem := mem, first := start }

/-- The scan of `malloc`: the first free chunk of more than `size` bytes, `0` at the end of the
    list.  `fuel` bounds the chunks visited; `none` is a walk that never ends. -/
def scan (mem : Mem) (size : Nat) : Nat → Nat → Option Nat
  | 0, _ => none
  | fuel + 1, chunk =>
      if chunk = 0 then some 0
      else if size < (chunkAt mem chunk).size ∧ (chunkAt mem chunk).allocated = false then some chunk
      else scan mem size fuel (chunkAt mem chunk).next

/-- A walk that passes more chunks than there are addresses meets one twice and never ends. -/
def scanFuel : Nat := 2 ^ 32

/-- The split of `malloc`: cut `size` bytes off `result` and link the rest behind it. -/
def split (mem : Mem) (result size : Nat) : Mem :=
  let temp := add32 (add32 result sizeofMemoryChunk) size
  let mem := setAllocated mem temp false
  let mem := setSize mem temp (sub32 (sub32 (chunkAt mem result).size size) sizeofMemoryChunk)
  let mem := setPrev mem temp result
  let mem := setNext mem temp (chunkAt mem result).next
  let mem := if (chunkAt mem temp).next ≠ 0 then setPrev mem (chunkAt mem temp).next temp else mem
  let mem := setSize mem result size
  setNext mem result temp

/-- `MemoryManager::malloc`: the payload pointer (`0` when nothing fits) and the heap afterwards. -/
def malloc (h : Heap) (size : Nat) : Option (Nat × Heap) :=
  match scan h.mem size scanFuel h.first with
  | none => none
  | some result =>
      if result = 0 then some (0, h)
      else
        let mem :=
          if add32 (add32 size sizeofMemoryChunk) 1 ≤ (chunkAt h.mem result).size
          then split h.mem result size else h.mem
        some (add32 result sizeofMemoryChunk, { h with mem := setAllocated mem result true })

/-- The first half of `free`: join the chunk with a free predecessor.  Returns the memory and the
    chunk that `chunk` points to afterwards. -/
def joinPrev (mem : Mem) (chunk : Nat) : Mem × Nat :=
  let prev := (chunkAt mem chunk).prev
  if prev ≠ 0 ∧ (chunkAt mem prev).allocated = false then
    let mem := setNext mem prev (chunkAt mem chunk).next
    let mem := setSize mem prev
      (add32 (chunkAt mem prev).size (add32 (chunkAt mem chunk).size sizeofMemoryChunk))
    let mem := if (chunkAt mem chunk).next ≠ 0 then setPrev mem (chunkAt mem chunk).next prev else mem
    (mem, prev)
  else (mem, chunk)

/-- The second half of `free`: join the chunk with a free successor. -/
def joinNext (mem : Mem) (chunk : Nat) : Mem :=
  let next := (chunkAt mem chunk).next
  if next ≠ 0 ∧ (chunkAt mem next).allocated = false then
    let mem := setSize mem chunk
      (add32 (chunkAt mem chunk).size (add32 (chunkAt mem next).size sizeofMemoryChunk))
    let mem := setNext mem chunk (chunkAt mem next).next
    if (chunkAt mem chunk).next ≠ 0 then setPrev mem (chunkAt mem chunk).next chunk else mem
  else mem

/-- `MemoryManager::free`. -/
def free (h : Heap) (ptr : Nat) : Heap :=
  let chunk := sub32 ptr sizeofMemoryChunk
  let mem := setAllocated h.mem chunk false
  let joined := joinPrev mem chunk
  { h with mem := joinNext joined.1 joined.2 }

/-! ## §3. How a header write is read back.

    Header writes at `c` are seen by header reads at `c`, and by no header read 16 bytes away. -/

/-- Two header addresses whose headers do not overlap. -/
def Apart (c d : Nat) : Prop := c + 16 ≤ d ∨ d + 16 ≤ c

theorem Apart.symm {c d : Nat} (h : Apart c d) : Apart d c := Or.symm h

/-- The header write `m ↦ m'` at `c` turns the header read there into `v` and touches nothing but
    the header's own bytes. -/
structure Updates (m m' : Mem) (c : Nat) (v : MemoryChunk) : Prop where
  here : chunkAt m' c = v
  frame : ∀ x, x < c ∨ c + 16 ≤ x → m' x = m x

/-- A header read depends on the header's bytes only. -/
theorem chunkAt_congr {m m' : Mem} {c : Nat} (h : ∀ x, c ≤ x → x < c + 16 → m' x = m x) :
    chunkAt m' c = chunkAt m c := by
  unfold chunkAt
  rw [readWord_congr fun x _ _ => h x (by omega) (by omega),
      readWord_congr (a := c + 4) fun x _ _ => h x (by omega) (by omega),
      readWord_congr (a := c + 12) fun x _ _ => h x (by omega) (by omega),
      h (c + 8) (by omega) (by omega)]

theorem Updates.apart {m m' : Mem} {c d : Nat} {v : MemoryChunk} (h : Updates m m' c v)
    (hd : Apart c d) : chunkAt m' d = chunkAt m d :=
  chunkAt_congr fun x _ _ => h.frame x (by unfold Apart at hd; omega)

theorem updates_setNext (m : Mem) (c : Nat) {v : Nat} (hv : v < 2 ^ 32) :
    Updates m (setNext m c v) c { chunkAt m c with next := v } where
  here := by
    unfold chunkAt setNext
    rw [read_write_self m c hv, read_write_apart m v (by omega), read_write_apart m v (by omega),
        writeWord_of_out m v (by omega)]
  frame x hx := writeWord_of_out m v (by omega)

theorem updates_setPrev (m : Mem) (c : Nat) {v : Nat} (hv : v < 2 ^ 32) :
    Updates m (setPrev m c v) c { chunkAt m c with prev := v } where
  here := by
    unfold chunkAt setPrev
    rw [read_write_self m (c + 4) hv, read_write_apart m v (by omega),
        read_write_apart m v (by omega), writeWord_of_out m v (by omega)]
  frame x hx := writeWord_of_out m v (by omega)

theorem updates_setSize (m : Mem) (c : Nat) {v : Nat} (hv : v < 2 ^ 32) :
    Updates m (setSize m c v) c { chunkAt m c with size := v } where
  here := by
    unfold chunkAt setSize
    rw [read_write_self m (c + 12) hv, read_write_apart m v (by omega),
        read_write_apart m v (by omega), writeWord_of_out m v (by omega)]
  frame x hx := writeWord_of_out m v (by omega)

theorem updates_setAllocated (m : Mem) (c : Nat) (v : Bool) :
    Updates m (setAllocated m c v) c { chunkAt m c with allocated := v } where
  here := by
    unfold chunkAt setAllocated
    rw [writeByte_self, read_writeByte_apart m _ (by omega), read_writeByte_apart m _ (by omega),
        read_writeByte_apart m _ (by omega)]
    cases v <;> rfl
  frame x hx := writeByte_of_ne m _ (by omega)

end SystemOS.Kernel.MemoryManager
