/-
  SystemOS.Kernel.HeapOrder — freeing in any order.

  `free` joins the chunk with whichever neighbours are free at that moment, so that different orders
  of the same calls go through different joins.  The chunk list that is left is a function of the
  blocks that were freed.

  Main results:
    * `fullInv_reachable`  — every handed-out chunk of a reachable heap is a live block.
    * `frees_commute`      — the calls of `free` may be made in any order, and when nothing is live
      the heap is the one free chunk that the constructor made.
-/
import SystemOS.Kernel.HeapRuns
import Mathlib.Data.List.Nodup

namespace SystemOS.Kernel.HeapOrder

open SystemOS.Lib.ByteMemory SystemOS.Lib.Extent SystemOS.Lib.Transition
open SystemOS.Kernel.MemoryManager SystemOS.Kernel.HeapLayout SystemOS.Kernel.HeapRuns

/-! ## §1. Handed-out chunks are live blocks. -/

/-- The invariant of the runs, in both directions. -/
def FullInv (R : Region) (s : HeapState) : Prop :=
  ∃ bs, Layout R s.heap bs ∧ (∀ q ∈ s.live, Backed R bs q) ∧
    ∀ x b, lookup 16 R.start bs x = some b → b.used = true → ∃ n, (x + 16, n) ∈ s.live

variable {R : Region} {s : HeapState}

theorem fullInv_init (mem : Mem) : FullInv R ⟨init mem R.start R.size, []⟩ := by
  refine ⟨_, init_layout R mem, by simp, ?_⟩
  intro x b hx hb
  simp only [lookup] at hx
  split at hx
  · obtain rfl := Option.some.inj hx
    exact absurd hb (by simp)
  · exact absurd hx (by simp)

/-- **The step lemma.** -/
theorem fullInv_step {s' : HeapState} {op : HeapOp} (hI : FullInv R s) (hs : HeapStep s op s') :
    FullInv R s' := by
  obtain ⟨bs, hL, hlive, hused⟩ := hI
  cases hs with
  | @malloc n p h' hn hm =>
    rcases malloc_step hL hlive hm with ⟨rfl, rfl⟩ | ⟨bs', hp, hL', _, hnew, hold, hcome⟩
    · exact ⟨bs, hL, hlive, hused⟩
    · refine ⟨bs', hL', fun q hq => ?_, fun y c hy hc => ?_⟩
      · simp only [if_neg hp, List.mem_cons] at hq
        rcases hq with rfl | hq
        · exact hnew
        · exact (hold q hq).2
      · simp only [if_neg hp, List.mem_cons]
        rcases hcome y c hy hc with rfl | hy
        · exact ⟨n, .inl rfl⟩
        · obtain ⟨k, hk⟩ := hused y c hy hc
          exact ⟨k, .inr hk⟩
  | @free p n hp =>
    obtain ⟨bs', hL', _, hold, hcome⟩ := free_step hL hlive hp
    refine ⟨bs', hL', fun q hq => ?_, fun y c hy hc => ?_⟩
    · simp only [List.mem_filter, decide_eq_true_eq] at hq
      exact hold q hq.1 hq.2
    · obtain ⟨hne, hy⟩ := hcome y c hy hc
      obtain ⟨k, hk⟩ := hused y c hy hc
      exact ⟨k, by simp [hk, hne]⟩
  | @store m' hm' => exact ⟨bs, store_layout hL hlive hm', hlive, hused⟩

/-- **The run lemma.** -/
theorem fullInv_reachable (hs : (heapSystem R).Reachable s) : FullInv R s := by
  refine hs.invariant (I := FullInv R) ?_ fun _ _ _ hI hst => fullInv_step hI hst
  rintro _ ⟨mem, rfl⟩
  exact fullInv_init mem

/-! ## §2. Many calls of `free`. -/

/-- The calls `free(p)` for the pointers of a list. -/
def freeAll (h : Heap) (ps : List Nat) : Heap := ps.foldl MemoryManager.free h

theorem freeAll_cons (h : Heap) (p : Nat) (ps : List Nat) :
    freeAll h (p :: ps) = freeAll (MemoryManager.free h p) ps := by
  unfold freeAll
  rw [List.foldl_cons]

/-- The two heaps have one chunk list, with the same headers. -/
def SameChunks (h h' : Heap) : Prop :=
  h.first = h'.first ∧ ∃ cs, ChunkList h.mem h.first cs ∧ ChunkList h'.mem h'.first cs ∧
    ∀ c ∈ cs, chunkAt h.mem c = chunkAt h'.mem c

/-- The heap is one free chunk, as the constructor makes it. -/
def OneChunk (R : Region) (h : Heap) : Prop :=
  h.first = R.start ∧ ChunkList h.mem h.first [R.start] ∧
    chunkAt h.mem R.start = ⟨0, 0, false, R.size - sizeofMemoryChunk⟩

/-- The headers of a list of blocks are the same in every memory. -/
theorem chain_headers {m m' : Mem} {stop p a : Nat} {bs : List Block} (h : Chain m stop p a bs)
    (h' : Chain m' stop p a bs) : ∀ c ∈ addrs 16 a bs, chunkAt m c = chunkAt m' c := by
  induction bs generalizing p a with
  | nil => simp [addrs]
  | cons b bs ih =>
    obtain ⟨hb, hbs⟩ := h
    obtain ⟨hb', hbs'⟩ := h'
    intro c hc
    rcases List.mem_cons.mp hc with rfl | hc
    · rw [hb, hb']
    · exact ih hbs hbs' c hc

theorem sameChunks_of_layout {h h' : Heap} {bs : List Block} (hL : Layout R h bs)
    (hL' : Layout R h' bs) : SameChunks h h' := by
  refine ⟨by rw [hL.first, hL'.first], addrs 16 R.start bs, layout_chunkList hL, ?_, ?_⟩
  · exact layout_chunkList hL'
  · exact chain_headers hL.chain hL'.chain

/-- `free` after `free` refines release after release. -/
theorem freeAll_layout {h : Heap} {bs : List Block} {xs : List Nat} (hL : Layout R h bs)
    (hn : xs.Nodup) (hout : HandedOut 16 R.start xs bs) :
    Layout R (freeAll h (xs.map (· + 16))) (releaseAll 16 R.start xs bs) := by
  induction xs generalizing h bs with
  | nil => exact hL
  | cons x xs ih =>
    obtain ⟨hx, hn⟩ := List.nodup_cons.mp hn
    obtain ⟨b, hb, _⟩ := hout x List.mem_cons_self
    rw [List.map_cons, freeAll_cons, releaseAll_cons]
    exact ih (free_refines hL hb).1 hn (hout.release hx)

/-- Live pointers are 16 bytes behind handed-out blocks. -/
theorem handedOut_of_live {bs : List Block} {ps : List Nat} (hlive : ∀ q ∈ s.live, Backed R bs q)
    (h : ∀ p ∈ ps, ∃ n, (p, n) ∈ s.live) :
    HandedOut 16 R.start (ps.map (· - 16)) bs ∧ (ps.map (· - 16)).map (· + 16) = ps := by
  have hback : ∀ p ∈ ps, 16 ≤ p ∧ ∃ b, lookup 16 R.start bs (p - 16) = some b ∧ b.used = true := by
    intro p hp
    obtain ⟨n, hn⟩ := h p hp
    obtain ⟨x, b, hpx, hx, hb, _⟩ := hlive _ hn
    have hpx : p = x + 16 := hpx
    subst hpx
    exact ⟨by omega, b, hx, hb⟩
  constructor
  · intro x hx
    obtain ⟨p, hp, rfl⟩ := List.mem_map.mp hx
    exact (hback p hp).2
  · rw [List.map_map]
    conv_rhs => rw [← List.map_id ps]
    apply List.map_congr_left
    intro p hp
    have := (hback p hp).1
    show p - 16 + 16 = p
    omega

/-- Freeing live pointers, each once, is a run. -/
theorem freeAll_reachable {ps : List Nat} (hs : (heapSystem R).Reachable s) (hn : ps.Nodup)
    (h : ∀ p ∈ ps, ∃ n, (p, n) ∈ s.live) :
    (heapSystem R).Reachable ⟨freeAll s.heap ps, s.live.filter fun q => q.1 ∉ ps⟩ := by
  induction ps generalizing s with
  | nil =>
    have hall : s.live.filter (fun q => q.1 ∉ ([] : List Nat)) = s.live := by simp
    rw [hall]
    exact hs
  | cons p ps ih =>
    obtain ⟨hp, hn⟩ := List.nodup_cons.mp hn
    obtain ⟨n, hpn⟩ := h p List.mem_cons_self
    have hrec := ih (s := ⟨MemoryManager.free s.heap p, s.live.filter fun q => q.1 ≠ p⟩)
      (hs.next (.free hpn)) hn fun q hq => by
        obtain ⟨k, hk⟩ := h q (List.mem_cons_of_mem _ hq)
        have hne : q ≠ p := fun heq => hp (heq ▸ hq)
        exact ⟨k, by simp [hk, hne]⟩
    have hlive : (s.live.filter fun q => q.1 ≠ p).filter (fun q => q.1 ∉ ps)
        = s.live.filter fun q => q.1 ∉ p :: ps := by
      rw [List.filter_filter]
      apply List.filter_congr
      intro q _
      simp [Bool.and_comm]
    rw [← hlive, freeAll_cons]
    exact hrec

/-- A heap of which nothing is live. -/
theorem oneChunk_of_none_live (hs : (heapSystem R).Reachable s) (hnone : s.live = []) :
    OneChunk R s.heap := by
  obtain ⟨bs, hL, _, hused⟩ := fullInv_reachable hs
  have hfree : ∀ b ∈ bs, b.used = false := by
    intro b hb
    obtain ⟨pre, post, rfl⟩ := List.append_of_mem hb
    have hx : lookup 16 R.start (pre ++ b :: post) (R.start + span 16 pre) = some b :=
      lookup_middle (by omega) pre post b
    by_contra hub
    obtain ⟨n, hn⟩ := hused _ b hx (by simpa using hub)
    rw [hnone] at hn
    exact absurd hn (by simp)
  obtain ⟨b, rfl, hb⟩ := all_free hL.ne_nil hL.separated hfree
  have hcover := hL.cover
  have hlist := layout_chunkList hL
  have hchain := hL.chain.1
  simp only [span, Region.stop] at hcover
  have hlink : link R.stop (R.start + 16 + b.size) = 0 := by
    unfold link Region.stop
    rw [if_pos (by omega)]
  refine ⟨hL.first, hlist, ?_⟩
  rw [hchain, hlink, hb]
  congr 1
  unfold sizeofMemoryChunk
  omega

/-- **The order of the calls of `free` does not matter.**  In every reachable heap, freeing live
    pointers, each once, leaves the same chunk list in whichever order it is done; and when every
    pointer has been freed, the heap is the single free chunk of the constructor. -/
theorem frees_commute (R : Region) (s : HeapState) (hs : (heapSystem R).Reachable s) :
    (∀ ps qs : List Nat, ps.Nodup → (∀ p ∈ ps, ∃ n, (p, n) ∈ s.live) → ps.Perm qs →
        SameChunks (freeAll s.heap ps) (freeAll s.heap qs))
      ∧ (s.live = [] → OneChunk R s.heap)
      ∧ ∀ ps : List Nat, ps.Nodup → (∀ p, p ∈ ps ↔ ∃ n, (p, n) ∈ s.live) →
          OneChunk R (freeAll s.heap ps) := by
  refine ⟨?_, oneChunk_of_none_live hs, ?_⟩
  · intro ps qs hn hlive hperm
    obtain ⟨bs, hL, hback, _⟩ := fullInv_reachable hs
    obtain ⟨hout, hps⟩ := handedOut_of_live hback hlive
    obtain ⟨_, hqs⟩ := handedOut_of_live hback fun q hq => hlive q (hperm.mem_iff.mpr hq)
    have hxperm := hperm.map (· - 16)
    have hxn : (ps.map (· - 16)).Nodup := by
      rw [← hps] at hn
      exact hn.of_map
    have hL₁ := freeAll_layout hL hxn hout
    have hL₂ := freeAll_layout hL (hxperm.nodup_iff.mp hxn)
      fun x hx => hout x (hxperm.mem_iff.mpr hx)
    rw [hps] at hL₁
    rw [hqs, ← releaseAll_perm hxperm hxn hout] at hL₂
    exact sameChunks_of_layout hL₁ hL₂
  · intro ps hn hlive
    have hrun := freeAll_reachable hs hn fun p hp => (hlive p).mp hp
    refine oneChunk_of_none_live hrun ?_
    rw [List.filter_eq_nil_iff]
    intro q hq
    have : q.1 ∈ ps := (hlive q.1).mpr ⟨q.2, hq⟩
    simp [this]

/-- Two blocks with a freed one between them: either may be freed first, and one chunk is left. -/
theorem frees_commute_mixed : ∃ s, (heapSystem tenMiB).Reachable s
    ∧ s.live = [(tenMiB.start + 72, 24), (tenMiB.start + 16, 8)]
    ∧ SameChunks (freeAll s.heap [tenMiB.start + 16, tenMiB.start + 72])
        (freeAll s.heap [tenMiB.start + 72, tenMiB.start + 16])
    ∧ OneChunk tenMiB (freeAll s.heap [tenMiB.start + 16, tenMiB.start + 72]) := by
  obtain ⟨s, hs, hlive, _⟩ := mixed_heap
  obtain ⟨horder, _, hall⟩ := frees_commute tenMiB s hs
  have hnodup : [tenMiB.start + 16, tenMiB.start + 72].Nodup := by decide
  have hpointers : ∀ p, p ∈ [tenMiB.start + 16, tenMiB.start + 72] ↔ ∃ n, (p, n) ∈ s.live := by
    intro p
    rw [hlive]
    simp [or_comm, exists_or]
  exact ⟨s, hs, hlive, horder _ _ hnodup (fun p hp => (hpointers p).mp hp) (.swap _ _ []),
    hall _ hnodup hpointers⟩

end SystemOS.Kernel.HeapOrder
