/-
  SystemOS.Kernel.PhysicalMemory — the heap that `kernelMain` gives its `MemoryManager`.

  The boot loader tells how many KiB lie above the first MiB.  `kernelMain` starts the heap at 10 MiB
  and computes its size in 32 bits: the product can wrap, and both differences can.

  Main results:
    * `heapSize_of_ge`, `heapSize_of_lt` — the size, without and with a wrapped difference.
    * `served_listed`                    — a heap that ends inside the memory stays inside.
    * `served_iff`                       — the amounts of memory for which every block is inside.
-/
import SystemOS.Kernel.HeapLayout

namespace SystemOS.Kernel.PhysicalMemory

open SystemOS.Lib.ByteMemory SystemOS.Lib.Extent
open SystemOS.Kernel.MemoryManager SystemOS.Kernel.HeapLayout

/-! ## §1. The code. -/

/-- `size_t heap`. -/
def heap : Nat := 10 * 1024 * 1024

/-- `*memupper`. -/
def memupper (mem : Mem) (multiboot_structure : Nat) : Nat :=
  readWord mem (add32 multiboot_structure 8)

/-- Unsigned 32-bit multiplication. -/
def mul32 (a b : Nat) : Nat := a * b % 2 ^ 32

/-- `(*memupper)*1024 - heap - 10*1024`. -/
def heapSize (memupper : Nat) : Nat := sub32 (sub32 (mul32 memupper 1024) heap) (10 * 1024)

/-- `memoryManager` of `kernelMain`. -/
def memoryManager (mem : Mem) (multiboot_structure : Nat) : Heap :=
  init mem heap (heapSize (memupper mem multiboot_structure))

/-- `allocated` of `kernelMain`, and the heap after it. -/
def allocated (mem : Mem) (multiboot_structure : Nat) : Option (Nat × Heap) :=
  malloc (memoryManager mem multiboot_structure) 1024

/-! ## §2. Inside the memory. -/

/-- The address behind the memory: `mem_upper` KiB above the first MiB. -/
def memoryEnd (mem_upper : Nat) : Nat := (1024 + mem_upper) * 1024

/-- A pointer that `malloc(n)` may return. -/
def Placed (mem_upper p n : Nat) : Prop := p = 0 ∨ heap ≤ p ∧ p + n ≤ memoryEnd mem_upper

/-- Calls of `malloc`, one after the other: each returns, and what it returns is placed. -/
def Served (mem_upper : Nat) : Heap → List UInt32 → Prop
  | _, [] => True
  | h, n :: sizes => ∃ p h', malloc h n.toNat = some (p, h') ∧ Placed mem_upper p n.toNat
      ∧ Served mem_upper h' sizes

/-- The differences do not wrap; or they do on a machine with more than 4 GiB, and the heap still ends
    where the addresses end. -/
def Enough (mem_upper : Nat) : Prop :=
  10250 ≤ mem_upper % 2 ^ 22 ∨ 2 ^ 22 ≤ mem_upper ∧ mem_upper % 2 ^ 22 ≤ 10

/-! ## §3. The size of the heap. -/

section Size

variable {mem_upper : Nat}

theorem heapSize_of_ge (h : 10250 ≤ mem_upper % 2 ^ 22) :
    heapSize mem_upper = (mem_upper % 2 ^ 22 - 10250) * 1024 := by
  unfold heapSize sub32 mul32 heap
  omega

theorem heapSize_of_lt (h : mem_upper % 2 ^ 22 < 10250) :
    heapSize mem_upper = 2 ^ 32 - (10250 - mem_upper % 2 ^ 22) * 1024 := by
  unfold heapSize sub32 mul32 heap
  omega

end Size

/-! ## §4. A heap inside the memory. -/

section Inside

variable {mem_upper stop : Nat} {h : Heap} {bs : List Block}

/-- **Every block lies between the start of the heap and its end.** -/
theorem served_listed (hstop : stop ≤ 2 ^ 32) (hend : stop ≤ memoryEnd mem_upper) (hne : bs ≠ [])
    (hL : Listed heap stop h bs) (sizes : List UInt32) : Served mem_upper h sizes := by
  induction sizes generalizing h bs with
  | nil => trivial
  | cons n sizes ih =>
      have hmalloc := malloc_listed (n := n.toNat) (show 0 < heap by decide) hstop hne hL
      cases hff : firstFit 16 n.toNat heap bs with
      | none =>
          rw [hff] at hmalloc
          exact ⟨0, h, hmalloc, .inl rfl, ih hne hL⟩
      | some r =>
          obtain ⟨x, bs'⟩ := r
          rw [hff] at hmalloc
          obtain ⟨h', hm, hL', -⟩ := hmalloc
          obtain ⟨b, hb, -, hsize⟩ := lookup_firstFit_self (by decide) hff
          have hbounds := lookup_bounds 16 hb
          have hcover := hL'.cover
          have hne' : bs' ≠ [] := by
            rintro rfl
            cases hb
          exact ⟨x + 16, h', hm, .inr ⟨by omega, by omega⟩, ih hne' hL'⟩

/-- Without a chunk every call returns null. -/
theorem served_empty (hfirst : h.first = 0) (sizes : List UInt32) : Served mem_upper h sizes := by
  induction sizes with
  | nil => trivial
  | cons n sizes ih =>
      have hscan : scan h.mem n.toNat scanFuel h.first = some 0 := by
        rw [hfirst]
        rfl
      refine ⟨0, h, ?_, .inl rfl, ih⟩
      simp only [malloc, hscan, if_true]

theorem served_of_enough (mem : Mem) (h : Enough mem_upper) (sizes : List UInt32) :
    Served mem_upper (init mem heap (heapSize mem_upper)) sizes := by
  have hheap : heap = 10485760 := rfl
  by_cases hnone : mem_upper % 2 ^ 22 = 10250
  · -- no room for a header
    have hsize : heapSize mem_upper = 0 := by rw [heapSize_of_ge (by omega), hnone]
    rw [hsize]
    exact served_empty rfl sizes
  · have hbounds : 16 ≤ heapSize mem_upper ∧ heapSize mem_upper < 2 ^ 32
        ∧ heap + heapSize mem_upper ≤ 2 ^ 32
        ∧ heap + heapSize mem_upper ≤ memoryEnd mem_upper := by
      unfold memoryEnd
      rcases h with h | ⟨hbig, h⟩
      · rw [heapSize_of_ge h]
        omega
      · rw [heapSize_of_lt (by omega)]
        omega
    obtain ⟨hroom, hsize, hstop, hend⟩ := hbounds
    exact served_listed hstop hend (List.cons_ne_nil _ _) (init_listed mem hroom hsize) sizes

end Inside

/-! ## §5. A heap that goes on behind the memory. -/

section Outside

variable {mem_upper size n : Nat} {mem : Mem}

theorem scan_step {fuel chunk : Nat} (h : chunk ≠ 0) :
    scan mem n (fuel + 1) chunk
      = if n < (chunkAt mem chunk).size ∧ (chunkAt mem chunk).allocated = false then some chunk
        else scan mem n fuel (chunkAt mem chunk).next := if_neg h

/-- The heap after a first block of `n` bytes. -/
def cut (mem : Mem) (size n : Nat) : Heap :=
  ⟨setAllocated (split (init mem heap size).mem heap n) heap true, heap⟩

theorem malloc_first (hsize : size < 2 ^ 32) (hn : n + 33 ≤ size) :
    malloc (init mem heap size) n = some (heap + 16, cut mem size n) := by
  obtain ⟨hfirst, hhead⟩ := @init_head heap size mem (by omega) hsize
  have hscan : scan (init mem heap size).mem n scanFuel heap = some heap := by
    show scan _ n (4294967295 + 1) heap = _
    rw [scan_step (by decide), hhead, if_pos ⟨show n < size - 16 by omega, rfl⟩]
  have hsum : add32 (add32 n sizeofMemoryChunk) 1 = n + 17 := by
    rw [sizeofMemoryChunk, add32_eq (a := n) (by omega), add32_eq (by omega)]
  have hroom : n + 17 ≤ size - 16 := by omega
  simp only [malloc, hfirst, hscan, hhead, hsum, if_pos hroom]
  rfl

/-- **The rest of a block that wraps** is handed out at the bottom of the memory. -/
theorem malloc_wrapped {t : Nat} (hsize : size < 2 ^ 32) (hn : n + 33 ≤ size)
    (htemp : add32 (add32 heap sizeofMemoryChunk) n = t) (ht : t ≠ 0) (hapart : Apart t heap) :
    ∃ h', malloc (cut mem size n) 0 = some (add32 t sizeofMemoryChunk, h') := by
  obtain ⟨hfirst, hhead⟩ := @init_head heap size mem (by omega) hsize
  obtain ⟨hheap, hrest, -, -⟩ := split_headers htemp (show n + 16 ≤ size - 16 by omega) (by omega)
    (by decide) (by decide) hapart (fun h => absurd rfl h) (fun h => absurd rfl h) hhead
  have U := updates_setAllocated (split (init mem heap size).mem heap n) heap true
  have hscan : scan (cut mem size n).mem 0 scanFuel (cut mem size n).first = some t := by
    show scan (setAllocated (split (init mem heap size).mem heap n) heap true) 0
      (4294967294 + 1 + 1) heap = _
    -- the first chunk is handed out, the rest behind it is free
    rw [scan_step (by decide), U.here, hheap, if_neg (by simp), scan_step ht, U.apart hapart.symm,
      hrest, if_pos ⟨show 0 < size - 16 - n - 16 by omega, rfl⟩]
  simp only [malloc, hscan, if_neg ht]
  exact ⟨_, rfl⟩

/-- Less than 2 MiB of the heap are in the memory. -/
theorem unserved_small (mem : Mem) (hsmall : mem_upper < 10250) :
    ¬ Served mem_upper (init mem heap (heapSize mem_upper)) [2097152] := by
  rintro ⟨p, h', hm, hplaced, -⟩
  have hsize : heapSize mem_upper = 2 ^ 32 - (10250 - mem_upper % 2 ^ 22) * 1024 :=
    heapSize_of_lt (by omega)
  have hfirst : malloc (init mem heap (heapSize mem_upper)) 2097152
      = some (heap + 16, cut mem (heapSize mem_upper) 2097152) :=
    malloc_first (by omega) (by omega)
  obtain rfl : heap + 16 = p := (Prod.mk.inj (Option.some.inj (hfirst.symm.trans hm))).1
  unfold Placed memoryEnd at hplaced
  have hbytes : (2097152 : UInt32).toNat = 2097152 := rfl
  have hheap : heap = 10485760 := rfl
  omega

/-- A block up to 4 GiB leaves a rest at address 16. -/
theorem unserved_wrapped (mem : Mem) (hlow : 11 ≤ mem_upper % 2 ^ 22)
    (hhigh : mem_upper % 2 ^ 22 < 10250) :
    ¬ Served mem_upper (init mem heap (heapSize mem_upper)) [4284481536, 0] := by
  rintro ⟨p, h', hm, -, q, h'', hm', hplaced, -⟩
  have hsize := heapSize_of_lt hhigh
  have hfirst : malloc (init mem heap (heapSize mem_upper)) 4284481536
      = some (heap + 16, cut mem (heapSize mem_upper) 4284481536) :=
    malloc_first (by omega) (by omega)
  obtain rfl : cut mem (heapSize mem_upper) 4284481536 = h' :=
    (Prod.mk.inj (Option.some.inj (hfirst.symm.trans hm))).2
  obtain ⟨h₂, hsecond⟩ := @malloc_wrapped (heapSize mem_upper) 4284481536 mem 16 (by omega)
    (by omega) rfl (by decide) (.inl (by decide))
  obtain rfl : add32 16 sizeofMemoryChunk = q :=
    (Prod.mk.inj (Option.some.inj (hsecond.symm.trans hm'))).1
  rcases hplaced with hnull | ⟨hstart, -⟩
  · exact absurd hnull (by decide)
  · exact absurd hstart (by decide)

end Outside

/-! ## §6. The amounts of memory. -/

/-- **Every block is inside the memory**, whatever is asked for, exactly if there is enough of it. -/
theorem served_iff (mem : Mem) (multiboot_structure : Nat) :
    (∀ sizes, Served (memupper mem multiboot_structure) (memoryManager mem multiboot_structure) sizes)
      ↔ Enough (memupper mem multiboot_structure) := by
  constructor
  · intro h
    by_contra hfew
    unfold Enough at hfew
    by_cases hsmall : memupper mem multiboot_structure < 10250
    · exact unserved_small mem hsmall (h _)
    · exact unserved_wrapped mem (by omega) (by omega) (h _)
  · exact fun h sizes => served_of_enough mem h sizes

/-- The multiboot structure of a machine with 8 MiB. -/
def eightMiB : Mem := writeWord (fun _ => 0) 8 7168

/-- `kernelMain` itself gets a block behind the memory of a machine with 8 MiB. -/
theorem allocated_behind : memupper eightMiB 0 = 7168 ∧ memoryEnd 7168 = 8 * 1024 * 1024
    ∧ (allocated eightMiB 0).map Prod.fst = some 10485776
    ∧ ¬ ∀ sizes, Served 7168 (memoryManager eightMiB 0) sizes := by
  have hupper : memupper eightMiB 0 = 7168 := read_write_self _ 8 (by decide)
  have hsize : heapSize 7168 = 2 ^ 32 - (10250 - 7168 % 2 ^ 22) * 1024 :=
    heapSize_of_lt (by decide)
  have hmanager : memoryManager eightMiB 0 = init eightMiB heap (heapSize 7168) := by
    rw [memoryManager, hupper]
  refine ⟨hupper, by decide, ?_, fun h => ?_⟩
  · rw [allocated, hmanager, malloc_first (by omega) (by omega)]
    rfl
  · rw [hmanager] at h
    exact unserved_small eightMiB (by decide) (h _)

end SystemOS.Kernel.PhysicalMemory
