/-
  SystemOS.Kernel.HeapReuse — allocating again what was just freed.

  `malloc` takes a chunk only when it has more bytes than were asked for (`size > n`), so that a
  chunk that was cut to `n` bytes is too small for `n` bytes once it is free, unless `free` has
  joined it with a neighbour.

  Main results:
    * `again_iff`       — after `free(p)`, `malloc(n)` returns a block exactly when the chunk of `p`
      has a byte to spare, a neighbour is free, or some other free chunk has room.
    * `not_again`       — a heap that hands out all of its bytes loses a block by freeing it.
-/
import SystemOS.Kernel.HeapRuns

namespace SystemOS.Kernel.HeapReuse

open SystemOS.Lib.ByteMemory SystemOS.Lib.Extent SystemOS.Lib.Transition
open SystemOS.Kernel.MemoryManager SystemOS.Kernel.HeapLayout SystemOS.Kernel.HeapRuns

/-- `malloc(n)` returns a block. -/
def Succeeds (h : Heap) (n : Nat) : Prop := ∃ p h', malloc h n = some (p, h') ∧ p ≠ 0

/-- There is a chunk at `c`, and it is free. -/
def FreeChunk (m : Mem) (c : Nat) : Prop := c ≠ 0 ∧ (chunkAt m c).allocated = false

/-- The chunk of the pointer `p` has more than `n` bytes, its predecessor or its successor is free,
    or some free chunk of the list has more than `n` bytes. -/
def RoomAgain (h : Heap) (p n : Nat) : Prop :=
  n < (chunkAt h.mem (p - sizeofMemoryChunk)).size ∨
    FreeChunk h.mem (chunkAt h.mem (p - sizeofMemoryChunk)).prev ∨
    FreeChunk h.mem (chunkAt h.mem (p - sizeofMemoryChunk)).next ∨
    ∃ cs, ChunkList h.mem h.first cs ∧
      ∃ d ∈ cs, (chunkAt h.mem d).allocated = false ∧ n < (chunkAt h.mem d).size

variable {R : Region} {h : Heap} {n : Nat} {pre post : List Block} {b : Block}

theorem succeeds_iff {bs : List Block} (hL : Layout R h bs) :
    Succeeds h n ↔ ∃ d ∈ bs, Fits n d := by
  have href := malloc_refines (n := n) hL
  have hsome : (firstFit 16 n R.start bs).isSome ↔ ∃ d ∈ bs, Fits n d := firstFit_isSome_iff
  rw [← hsome]
  cases hff : firstFit 16 n R.start bs with
  | none =>
    rw [hff] at href
    have hm : malloc h n = some (0, h) := href
    refine ⟨?_, fun hsome => absurd hsome (by simp)⟩
    rintro ⟨p, h', hp, hne⟩
    rw [hm] at hp
    obtain ⟨rfl, _⟩ := Prod.mk.inj (Option.some.inj hp)
    exact absurd rfl hne
  | some r =>
    obtain ⟨x, bs'⟩ := r
    rw [hff] at href
    obtain ⟨h', hm, _⟩ := href
    exact ⟨fun _ => rfl, fun _ => ⟨x + 16, h', hm, by omega⟩⟩

/-- The header of a block in the middle of the list. -/
theorem header_middle (hL : Layout R h (pre ++ b :: post)) :
    chunkAt h.mem (R.start + span 16 pre) =
      ⟨link R.stop (R.start + span 16 pre + 16 + b.size), lastAddr 16 0 R.start pre, b.used,
        b.size⟩ := by
  have hchain := hL.chain
  rw [chain_append] at hchain
  exact hchain.2.1

theorem lastAddr_concat (p a : Nat) (qs : List Block) (l : Block) :
    lastAddr 16 p a (qs ++ [l]) = a + span 16 qs := by
  induction qs generalizing p a with
  | nil => rfl
  | cons c qs ih =>
    simp only [List.cons_append, lastAddr, span]
    rw [ih]
    omega

/-- The predecessor is free. -/
theorem prev_free_iff (hL : Layout R h (pre ++ b :: post)) :
    FreeChunk h.mem (chunkAt h.mem (R.start + span 16 pre)).prev ↔
      ∃ l ∈ pre.getLast?, l.used = false := by
  rw [header_middle hL]
  rcases List.eq_nil_or_concat' pre with rfl | ⟨qs, l, rfl⟩
  · simp [FreeChunk, lastAddr]
  · have hpos := R.start_pos
    have hmid : Layout R h (qs ++ l :: b :: post) := by simpa using hL
    simp only [List.getLast?_concat, Option.mem_def, Option.some.injEq, exists_eq_left']
    unfold FreeChunk
    rw [lastAddr_concat, header_middle hmid]
    exact ⟨fun hfree => hfree.2, fun hl => ⟨by omega, hl⟩⟩

/-- The successor is free. -/
theorem next_free_iff (hL : Layout R h (pre ++ b :: post)) :
    FreeChunk h.mem (chunkAt h.mem (R.start + span 16 pre)).next ↔
      ∃ c ∈ post.head?, c.used = false := by
  have hcover := hL.cover
  have hpos := R.start_pos
  rw [header_middle hL]
  simp only [span_append, span] at hcover
  cases post with
  | nil =>
    have hlink : link R.stop (R.start + span 16 pre + 16 + b.size) = 0 := by
      unfold link
      rw [if_pos (by simp only [span] at hcover; omega)]
    simp [FreeChunk, hlink]
  | cons c cs =>
    have hmid : Layout R h ((pre ++ [b]) ++ c :: cs) := by simpa using hL
    have hnext : R.start + span 16 (pre ++ [b]) = R.start + span 16 pre + 16 + b.size := by
      simp only [span_append, span]
      omega
    have hlink : link R.stop (R.start + span 16 pre + 16 + b.size)
        = R.start + span 16 pre + 16 + b.size := by
      unfold link
      rw [if_neg (by simp only [span] at hcover; omega)]
    have hc := header_middle hmid
    rw [hnext] at hc
    simp only [List.head?_cons, Option.mem_def, Option.some.injEq, exists_eq_left']
    unfold FreeChunk
    rw [hlink, hc]
    exact ⟨fun hfree => hfree.2, fun hfree => ⟨by omega, hfree⟩⟩

/-- Some free chunk of the list has room. -/
theorem room_iff {bs : List Block} (hL : Layout R h bs) :
    (∃ cs, ChunkList h.mem h.first cs ∧
      ∃ d ∈ cs, (chunkAt h.mem d).allocated = false ∧ n < (chunkAt h.mem d).size) ↔
      ∃ d ∈ bs, Fits n d := by
  constructor
  · rintro ⟨cs, hcs, d, hd, hfree, hsize⟩
    rw [hcs.unique (layout_chunkList hL)] at hd
    obtain ⟨c, hc⟩ := mem_addrs_iff.mp hd
    obtain ⟨_, hused, hcsize⟩ := chunkAt_of_lookup hL.chain hc
    obtain ⟨qs, rs, hbs, _⟩ := lookup_split 16 hc
    refine ⟨c, by rw [hbs]; simp, by omega, ?_⟩
    rw [← hused]
    exact hfree
  · rintro ⟨c, hc, hsize, hfree⟩
    obtain ⟨qs, rs, rfl⟩ := List.append_of_mem hc
    have hhdr := header_middle hL
    refine ⟨_, layout_chunkList hL, R.start + span 16 qs, ?_, ?_, ?_⟩
    · exact mem_addrs_iff.mpr ⟨c, lookup_middle (by omega) qs rs c⟩
    · rw [hhdr]
      exact hfree
    · rw [hhdr]
      exact hsize

/-- **When a freed block can be allocated again**, in every reachable heap: its chunk has a byte
    more than was asked for, one of its neighbours is free, or another free chunk has room. -/
theorem again_iff (R : Region) (s : HeapState) (p n : Nat) (hs : (heapSystem R).Reachable s)
    (hp : (p, n) ∈ s.live) :
    Succeeds (MemoryManager.free s.heap p) n ↔ RoomAgain s.heap p n := by
  obtain ⟨bs, hL, hlive⟩ := heapInv_reachable hs
  obtain ⟨x, b, hpx, hx, hused, hsize⟩ := hlive _ hp
  have hpx : p = x + 16 := hpx
  have hsize : n ≤ b.size := hsize
  subst hpx
  have hL' := (free_refines hL hx).1
  obtain ⟨pre, post, rfl, rfl⟩ := lookup_split 16 hx
  have hptr : R.start + span 16 pre + 16 - sizeofMemoryChunk = R.start + span 16 pre := by
    unfold sizeofMemoryChunk
    omega
  -- the block itself is handed out, so it is none of the free ones
  have hothers : (∃ d ∈ pre ++ b :: post, Fits n d) ↔ ∃ d ∈ pre ++ post, Fits n d := by
    have hb : ¬ Fits n b := fun hfit => by
      rw [hfit.2] at hused
      exact absurd hused (by decide)
    simp only [List.mem_append, List.mem_cons]
    constructor
    · rintro ⟨d, hd | rfl | hd, hfit⟩
      · exact ⟨d, .inl hd, hfit⟩
      · exact absurd hfit hb
      · exact ⟨d, .inr hd, hfit⟩
    · rintro ⟨d, hd | hd, hfit⟩
      · exact ⟨d, .inl hd, hfit⟩
      · exact ⟨d, .inr (.inr hd), hfit⟩
  unfold RoomAgain
  rw [hptr, succeeds_iff hL', release_fits_iff (by omega) hL.separated hsize, prev_free_iff hL,
    next_free_iff hL, room_iff hL, hothers, header_middle hL]

/-- A run to a heap that hands out all of its bytes, the first chunk cut to 8 bytes. -/
theorem full_heap : ∃ s, (heapSystem tenMiB).Reachable s ∧ (tenMiB.start + 16, 8) ∈ s.live ∧
    Layout tenMiB s.heap [⟨8, true⟩, ⟨1048536, true⟩] := by
  have hL₀ := init_layout tenMiB (fun _ => 0)
  have hstart : (heapSystem tenMiB).Reachable ⟨init (fun _ => 0) tenMiB.start tenMiB.size, []⟩ :=
    .start ⟨_, rfl⟩
  -- `malloc(8)` splits the region
  have href₁ := malloc_refines (n := 8) hL₀
  have hff₁ : firstFit 16 8 tenMiB.start [⟨tenMiB.size - 16, false⟩]
      = some (tenMiB.start, [⟨8, true⟩, ⟨1048536, false⟩]) := by decide
  rw [hff₁] at href₁
  obtain ⟨h₁, hm₁, hL₁, _⟩ := href₁
  have hs₁ := hstart.next (.malloc (by omega) hm₁)
  -- the next block takes the rest, which is one byte larger
  have href₂ := malloc_refines (n := 1048535) hL₁
  have hff₂ : firstFit 16 1048535 tenMiB.start [⟨8, true⟩, ⟨1048536, false⟩]
      = some (tenMiB.start + 24, [⟨8, true⟩, ⟨1048536, true⟩]) := by decide
  rw [hff₂] at href₂
  obtain ⟨h₂, hm₂, hL₂, _⟩ := href₂
  have hs₂ := hs₁.next (.malloc (by omega) hm₂)
  refine ⟨_, hs₂, ?_, hL₂⟩
  simp [tenMiB]

theorem again_iff_full : ∃ s, (heapSystem tenMiB).Reachable s ∧ (tenMiB.start + 16, 8) ∈ s.live ∧
    (Succeeds (MemoryManager.free s.heap (tenMiB.start + 16)) 8 ↔
      RoomAgain s.heap (tenMiB.start + 16) 8) := by
  obtain ⟨s, hs, hp, _⟩ := full_heap
  exact ⟨s, hs, hp, again_iff tenMiB s _ 8 hs hp⟩

/-- Eight bytes are freed, and eight bytes are not to be had. -/
theorem not_again : ¬ ∀ (R : Region) (s : HeapState) (p n : Nat), (heapSystem R).Reachable s →
    (p, n) ∈ s.live → Succeeds (MemoryManager.free s.heap p) n := by
  intro hclaim
  obtain ⟨s, hs, hp, hL⟩ := full_heap
  have hx : lookup 16 tenMiB.start [⟨8, true⟩, ⟨1048536, true⟩] tenMiB.start = some ⟨8, true⟩ := rfl
  have hL' := (free_refines hL hx).1
  have hrel : release 16 tenMiB.start tenMiB.start [⟨8, true⟩, ⟨1048536, true⟩]
      = [⟨8, false⟩, ⟨1048536, true⟩] := by decide
  rw [hrel] at hL'
  have hfits := (succeeds_iff (n := 8) hL').mp (hclaim tenMiB s _ 8 hs hp)
  exact absurd hfits (by decide)

end SystemOS.Kernel.HeapReuse
