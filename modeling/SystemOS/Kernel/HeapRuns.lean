/-
  SystemOS.Kernel.HeapRuns — what holds of the kernel heap over every run of `malloc` and `free`.

  A run starts from the constructor on any memory contents, allocates any sizes, frees pointers that
  `malloc` returned and that were not freed since, and lets the owners of live blocks write their
  bytes in between.

  Main results:
    * `chunk_list_tiles`  — the chunk list tiles the region, `prev` inverts `next`, no two
      neighbours are free, and every `malloc` returns.
    * `heap_isolation`    — a returned block lies in the region, apart from every live block and
      every header, and no operation changes a byte of a block it does not free.
-/
import SystemOS.Kernel.HeapLayout
import SystemOS.Lib.Transition

namespace SystemOS.Kernel.HeapRuns

open SystemOS.Lib.ByteMemory
open SystemOS.Lib.Extent
open SystemOS.Lib.Transition
open SystemOS.Kernel.MemoryManager
open SystemOS.Kernel.HeapLayout

/-! ## §1. Runs. -/

/-- The heap, and the live blocks: pointer returned and bytes asked for. -/
structure HeapState where
  heap : Heap
  live : List (Nat × Nat)

inductive HeapOp
  | malloc (n : Nat)
  | free (p : Nat)
  | store
deriving DecidableEq, Repr

/-- Address `y` is a byte of the block `q`. -/
def InBlock (q : Nat × Nat) (y : Nat) : Prop := q.1 ≤ y ∧ y < q.1 + q.2

/-- One step of a run.  `store` is the owners of live blocks writing to them. -/
inductive HeapStep (s : HeapState) : HeapOp → HeapState → Prop
  | malloc {n p : Nat} {h' : Heap} : n < 2 ^ 32 → MemoryManager.malloc s.heap n = some (p, h') →
      HeapStep s (.malloc n) ⟨h', if p = 0 then s.live else (p, n) :: s.live⟩
  | free {p n : Nat} : (p, n) ∈ s.live →
      HeapStep s (.free p) ⟨MemoryManager.free s.heap p, s.live.filter fun q => q.1 ≠ p⟩
  | store {m' : Mem} : (∀ y, (∀ q ∈ s.live, ¬ InBlock q y) → m' y = s.heap.mem y) →
      HeapStep s .store ⟨{ s.heap with mem := m' }, s.live⟩

/-- The runs over a region. -/
def heapSystem (R : Region) : System HeapState HeapOp where
  init s := ∃ mem, s = ⟨init mem R.start R.size, []⟩
  step := HeapStep

/-! ## §2. The invariant. -/

/-- The live block `q` is the payload of a handed-out chunk of the list `bs`. -/
def Backed (R : Region) (bs : List Block) (q : Nat × Nat) : Prop :=
  ∃ x b, q.1 = x + 16 ∧ lookup 16 R.start bs x = some b ∧ b.used = true ∧ q.2 ≤ b.size

/-- The heap is a list of blocks, and every live block is the payload of one of them. -/
def HeapInv (R : Region) (s : HeapState) : Prop :=
  ∃ bs, Layout R s.heap bs ∧ ∀ q ∈ s.live, Backed R bs q

/-- The payload of a chunk meets no header. -/
theorem header_apart {R : Region} {bs : List Block} {q : Nat × Nat} {c : Nat} (hq : Backed R bs q)
    (hc : c ∈ addrs 16 R.start bs) : q.1 + q.2 ≤ c ∨ c + 16 ≤ q.1 := by
  obtain ⟨x, b, hqx, hx, _, hsize⟩ := hq
  obtain ⟨d, hd⟩ := mem_addrs_iff.mp hc
  rcases Nat.lt_trichotomy x c with hlt | rfl | hgt
  · have := lookup_disjoint hx hd hlt
    omega
  · omega
  · have := lookup_disjoint hd hx hgt
    omega

/-- Header writes leave the payload of every chunk alone. -/
theorem payload_frame {R : Region} {bs : List Block} {m m' : Mem} {q : Nat × Nat} {y : Nat}
    (hH : HeadersOnly (addrs 16 R.start bs) m m') (hq : Backed R bs q) (hy : InBlock q y) :
    m' y = m y := by
  refine hH y fun c hc => ?_
  have := header_apart hq hc
  unfold InBlock at hy
  omega

theorem heapInv_init (R : Region) (mem : Mem) : HeapInv R ⟨init mem R.start R.size, []⟩ :=
  ⟨_, init_layout R mem, by simp⟩

/-- A `malloc` from a state of the invariant: nothing changes, or the first fitting block is
    returned, apart from everything live, and header bytes only are written. -/
theorem malloc_step {R : Region} {s : HeapState} {bs : List Block} {n p : Nat} {h' : Heap}
    (hL : Layout R s.heap bs) (hlive : ∀ q ∈ s.live, Backed R bs q)
    (hm : MemoryManager.malloc s.heap n = some (p, h')) :
    (p = 0 ∧ h' = s.heap) ∨
      ∃ bs', p ≠ 0 ∧ Layout R h' bs' ∧ HeadersOnly (addrs 16 R.start bs') s.heap.mem h'.mem
        ∧ Backed R bs' (p, n) ∧ (∀ q ∈ s.live, q.1 ≠ p ∧ Backed R bs' q)
        ∧ ∀ y c, lookup 16 R.start bs' y = some c → c.used = true →
            y + 16 = p ∨ lookup 16 R.start bs y = some c := by
  have href := malloc_refines (n := n) hL
  cases hff : firstFit 16 n R.start bs with
  | none =>
    rw [hff] at href
    have hm' : malloc s.heap n = some (0, s.heap) := href
    rw [hm'] at hm
    simp only [Option.some.injEq, Prod.mk.injEq] at hm
    exact Or.inl ⟨hm.1.symm, hm.2.symm⟩
  | some r =>
    obtain ⟨x, bs'⟩ := r
    rw [hff] at href
    obtain ⟨h'', hm', hL', hH⟩ := href
    rw [hm'] at hm
    simp only [Option.some.injEq, Prod.mk.injEq] at hm
    obtain ⟨rfl, rfl⟩ := hm
    obtain ⟨b, hb, hused, hsize⟩ := lookup_firstFit_self (by omega) hff
    refine Or.inr ⟨bs', by omega, hL', hH, ⟨x, b, rfl, hb, hused, hsize⟩, fun q hq => ?_,
      fun y c hy hc => ?_⟩
    · -- the other used blocks stay where they are
      obtain ⟨y, c, hqy, hy, hc, hqs⟩ := hlive q hq
      obtain ⟨hne, hy'⟩ := lookup_firstFit (by omega) hff hy hc
      exact ⟨by omega, ⟨y, c, hqy, hy', hc, hqs⟩⟩
    · rcases lookup_of_firstFit (by omega) hff hy hc with rfl | hold
      · exact Or.inl rfl
      · exact Or.inr hold

/-- A `free` of a live block from a state of the invariant. -/
theorem free_step {R : Region} {s : HeapState} {bs : List Block} {p n : Nat}
    (hL : Layout R s.heap bs) (hlive : ∀ q ∈ s.live, Backed R bs q) (hp : (p, n) ∈ s.live) :
    ∃ bs', Layout R (MemoryManager.free s.heap p) bs'
      ∧ HeadersOnly (addrs 16 R.start bs) s.heap.mem (MemoryManager.free s.heap p).mem
      ∧ (∀ q ∈ s.live, q.1 ≠ p → Backed R bs' q)
      ∧ ∀ y c, lookup 16 R.start bs' y = some c → c.used = true →
          y + 16 ≠ p ∧ lookup 16 R.start bs y = some c := by
  obtain ⟨x, b, hpx, hx, hused, _⟩ := hlive _ hp
  have hpx : p = x + 16 := hpx
  subst hpx
  obtain ⟨hL', hH⟩ := free_refines hL hx
  refine ⟨_, hL', hH, fun q hq hne => ?_, fun y c hy hc => ?_⟩
  · obtain ⟨y, c, hqy, hy, hc, hqs⟩ := hlive q hq
    exact ⟨y, c, hqy, lookup_release hy hc (by omega), hc, hqs⟩
  · obtain ⟨hne, hold⟩ := lookup_of_release (by omega) hy hc
    exact ⟨by omega, hold⟩

/-- The owners of the live blocks write no header. -/
theorem store_layout {R : Region} {s : HeapState} {bs : List Block} {m' : Mem}
    (hL : Layout R s.heap bs) (hlive : ∀ q ∈ s.live, Backed R bs q)
    (hm' : ∀ y, (∀ q ∈ s.live, ¬ InBlock q y) → m' y = s.heap.mem y) :
    Layout R { s.heap with mem := m' } bs := by
  refine ⟨hL.first, hL.cover, ?_, hL.separated⟩
  refine chain_congr (fun c hc y hy hy' => hm' y fun q hq hin => ?_) hL.chain
  have := header_apart (hlive q hq) hc
  unfold InBlock at hin
  omega

/-- **The step lemma.** -/
theorem heapInv_step {R : Region} {s s' : HeapState} {op : HeapOp} (hI : HeapInv R s)
    (hs : HeapStep s op s') : HeapInv R s' := by
  obtain ⟨bs, hL, hlive⟩ := hI
  cases hs with
  | @malloc n p h' hn hm =>
    rcases malloc_step hL hlive hm with ⟨rfl, rfl⟩ | ⟨bs', hp, hL', _, hnew, hold, _⟩
    · exact ⟨bs, hL, hlive⟩
    · refine ⟨bs', hL', fun q hq => ?_⟩
      simp only [if_neg hp, List.mem_cons] at hq
      rcases hq with rfl | hq
      · exact hnew
      · exact (hold q hq).2
  | @free p n hp =>
    obtain ⟨bs', hL', _, hold, _⟩ := free_step hL hlive hp
    refine ⟨bs', hL', fun q hq => ?_⟩
    simp only [List.mem_filter, decide_eq_true_eq] at hq
    exact hold q hq.1 hq.2
  | @store m' hm' =>
    exact ⟨bs, store_layout hL hlive hm', hlive⟩

/-- **The run lemma.** -/
theorem heapInv_reachable {R : Region} {s : HeapState} (hs : (heapSystem R).Reachable s) :
    HeapInv R s := by
  refine hs.invariant (I := HeapInv R) ?_ fun _ _ _ hI hst => heapInv_step hI hst
  intro _ hinit
  obtain ⟨mem, rfl⟩ := hinit
  exact heapInv_init R mem

/-! ## §3. The chunk list. -/

/-- The chunks met from a pointer by following `next`. -/
inductive ChunkList (m : Mem) : Nat → List Nat → Prop
  | nil : ChunkList m 0 []
  | cons {c : Nat} {cs : List Nat} : c ≠ 0 → ChunkList m (chunkAt m c).next cs →
      ChunkList m c (c :: cs)

/-- The chunks `cs` tile the region: `next` is the address right behind the chunk, `prev` inverts
    `next`, the ends are null, and of two neighbours one is handed out. -/
structure Tiles (m : Mem) (R : Region) (cs : List Nat) : Prop where
  head : cs.head? = some R.start
  head_prev : (chunkAt m R.start).prev = 0
  neighbours : cs.IsChain fun c d =>
    (chunkAt m c).next = d ∧ d = c + sizeofMemoryChunk + (chunkAt m c).size
      ∧ (chunkAt m d).prev = c
      ∧ ¬ ((chunkAt m c).allocated = false ∧ (chunkAt m d).allocated = false)
  last : ∀ c ∈ cs.getLast?, (chunkAt m c).next = 0
    ∧ c + sizeofMemoryChunk + (chunkAt m c).size = R.stop

theorem ChunkList.unique {m : Mem} {a : Nat} {cs ds : List Nat} (hc : ChunkList m a cs)
    (hd : ChunkList m a ds) : cs = ds := by
  induction hc generalizing ds with
  | nil => cases hd with
    | nil => rfl
    | cons h _ => exact absurd rfl h
  | cons hne _ ih => cases hd with
    | nil => exact absurd rfl hne
    | cons _ h => rw [ih h]

/-- The chunk list of a chain is its list of header addresses. -/
theorem chunkList_of_chain {m : Mem} {stop : Nat} :
    ∀ {p a : Nat} {bs : List Block}, 0 < a → a + span 16 bs = stop → Chain m stop p a bs →
      ChunkList m (link stop a) (addrs 16 a bs)
  | p, a, [], ha, hstop, _ => by
      rw [(link_eq_zero ha hstop).mpr rfl]
      exact .nil
  | p, a, b :: bs, ha, hstop, h => by
      obtain ⟨hb, hbs⟩ := h
      rw [link_of_ne_nil hstop (by simp)]
      simp only [span] at hstop
      refine .cons (by omega) ?_
      rw [hb]
      exact chunkList_of_chain (by omega) (by omega) hbs

theorem layout_chunkList {R : Region} {h : Heap} {bs : List Block} (hL : Layout R h bs) :
    ChunkList h.mem h.first (addrs 16 R.start bs) := by
  rw [hL.first, ← link_of_ne_nil hL.cover hL.ne_nil]
  have := chunkList_of_chain R.start_pos hL.cover hL.chain
  rwa [link_of_ne_nil hL.cover hL.ne_nil] at this ⊢

/-- Neighbours of a chain, header by header. -/
theorem neighbours_of_chain {m : Mem} {stop : Nat} :
    ∀ {p a : Nat} {bs : List Block}, a + span 16 bs = stop → Chain m stop p a bs → Separated bs →
      (addrs 16 a bs).IsChain fun c d =>
        (chunkAt m c).next = d ∧ d = c + sizeofMemoryChunk + (chunkAt m c).size
          ∧ (chunkAt m d).prev = c
          ∧ ¬ ((chunkAt m c).allocated = false ∧ (chunkAt m d).allocated = false)
  | _, _, [], _, _, _ => List.isChain_nil
  | _, a, [b], _, _, _ => List.isChain_singleton _
  | p, a, b :: c :: bs, hstop, ⟨hb, hc, hbs⟩, hsep => by
      have hsep' : (b.used = true ∨ c.used = true) ∧ Separated (c :: bs) := by
        unfold Separated at hsep ⊢
        exact List.isChain_cons_cons.mp hsep
      simp only [span] at hstop
      have hrec := @neighbours_of_chain m stop a (a + 16 + b.size) (c :: bs)
        (by simp only [span]; omega) ⟨hc, hbs⟩ hsep'.2
      simp only [addrs] at hrec ⊢
      refine List.isChain_cons_cons.mpr ⟨⟨?_, ?_, ?_, ?_⟩, hrec⟩
      · rw [hb]
        simp only [link]
        rw [if_neg (by omega)]
      · rw [hb, sizeofMemoryChunk]
      · rw [hc]
      · -- the flags are those of the two blocks
        rw [hb, hc]
        intro hboth
        obtain ⟨h1, h2⟩ := hboth
        simp only at h1 h2
        simp [h1, h2] at hsep'

/-- The last chunk of a chain. -/
theorem last_of_chain {m : Mem} {stop : Nat} :
    ∀ {p a : Nat} {bs : List Block}, a + span 16 bs = stop → Chain m stop p a bs →
      ∀ c ∈ (addrs 16 a bs).getLast?, (chunkAt m c).next = 0
        ∧ c + sizeofMemoryChunk + (chunkAt m c).size = stop
  | _, _, [], _, _, _, hc => by simp [addrs] at hc
  | _, a, [b], hstop, ⟨hb, _⟩, c, hc => by
      simp only [addrs, List.getLast?_singleton, Option.mem_def, Option.some.injEq] at hc
      subst hc
      simp only [span] at hstop
      rw [hb]
      refine ⟨?_, by simp only [sizeofMemoryChunk]; omega⟩
      simp only [link]
      rw [if_pos (by omega)]
  | _, a, b :: d :: bs, hstop, ⟨_, hbs⟩, c, hc => by
      simp only [span] at hstop
      refine @last_of_chain m stop a (a + 16 + b.size) (d :: bs)
        (by simp only [span]; omega) hbs c ?_
      simpa [addrs] using hc

theorem layout_tiles {R : Region} {h : Heap} {bs : List Block} (hL : Layout R h bs) :
    Tiles h.mem R (addrs 16 R.start bs) where
  head := by
    have := hL.ne_nil
    cases bs with
    | nil => exact absurd rfl this
    | cons b bs => rfl
  head_prev := by
    have hne := hL.ne_nil
    have hchain := hL.chain
    cases bs with
    | nil => exact absurd rfl hne
    | cons b bs => rw [hchain.1]
  neighbours := neighbours_of_chain hL.cover hL.chain hL.separated
  last := last_of_chain hL.cover hL.chain

/-- **The chunk list tiles the region in every reachable heap**, and every `malloc` comes back. -/
theorem chunk_list_tiles (R : Region) (s : HeapState) (hs : (heapSystem R).Reachable s) :
    ∃ cs, ChunkList s.heap.mem s.heap.first cs ∧ Tiles s.heap.mem R cs
      ∧ ∀ n < 2 ^ 32, (malloc s.heap n).isSome := by
  obtain ⟨bs, hL, _⟩ := heapInv_reachable hs
  refine ⟨addrs 16 R.start bs, layout_chunkList hL, layout_tiles hL, fun n _ => ?_⟩
  have href := malloc_refines (n := n) hL
  cases hff : firstFit 16 n R.start bs with
  | none =>
    rw [hff] at href
    have hm : malloc s.heap n = some (0, s.heap) := href
    rw [hm]
    rfl
  | some r =>
    rw [hff] at href
    obtain ⟨h', hm, _⟩ := href
    rw [hm]
    rfl

/-- One MiB at 10 MiB, the heap address of the kernel. -/
def tenMiB : Region := ⟨10485760, 1048576, by decide, by decide, by decide⟩

/-- Three blocks are handed out, and the one in the middle is freed. -/
theorem mixed_heap : ∃ s, (heapSystem tenMiB).Reachable s
    ∧ s.live = [(tenMiB.start + 72, 24), (tenMiB.start + 16, 8)]
    ∧ Layout tenMiB s.heap [⟨8, true⟩, ⟨16, false⟩, ⟨24, true⟩, ⟨1048464, false⟩] := by
  have hstart : (heapSystem tenMiB).Reachable ⟨init (fun _ => 0) tenMiB.start tenMiB.size, []⟩ :=
    .start ⟨_, rfl⟩
  have href₁ := malloc_refines (n := 8) (init_layout tenMiB (fun _ => 0))
  have hff₁ : firstFit 16 8 tenMiB.start [⟨tenMiB.size - 16, false⟩]
      = some (tenMiB.start, [⟨8, true⟩, ⟨1048536, false⟩]) := by decide
  rw [hff₁] at href₁
  obtain ⟨h₁, hm₁, hL₁, _⟩ := href₁
  have href₂ := malloc_refines (n := 16) hL₁
  have hff₂ : firstFit 16 16 tenMiB.start [⟨8, true⟩, ⟨1048536, false⟩]
      = some (tenMiB.start + 24, [⟨8, true⟩, ⟨16, true⟩, ⟨1048504, false⟩]) := by decide
  rw [hff₂] at href₂
  obtain ⟨h₂, hm₂, hL₂, _⟩ := href₂
  have href₃ := malloc_refines (n := 24) hL₂
  have hff₃ : firstFit 16 24 tenMiB.start [⟨8, true⟩, ⟨16, true⟩, ⟨1048504, false⟩]
      = some (tenMiB.start + 56, [⟨8, true⟩, ⟨16, true⟩, ⟨24, true⟩, ⟨1048464, false⟩]) := by
    decide
  rw [hff₃] at href₃
  obtain ⟨h₃, hm₃, hL₃, _⟩ := href₃
  have hL₄ := (free_refines hL₃ (x := tenMiB.start + 24) (b := ⟨16, true⟩) rfl).1
  have hs₃ := ((hstart.next (.malloc (by omega) hm₁)).next (.malloc (by omega) hm₂)).next
    (.malloc (by omega) hm₃)
  exact ⟨_, hs₃.next (.free (p := tenMiB.start + 40) (n := 16) (by simp [tenMiB])),
    by simp [tenMiB], hL₄⟩

theorem chunk_list_tiles_mixed : ∃ s, (heapSystem tenMiB).Reachable s
    ∧ s.live = [(tenMiB.start + 72, 24), (tenMiB.start + 16, 8)]
    ∧ ∃ cs, ChunkList s.heap.mem s.heap.first cs ∧ Tiles s.heap.mem tenMiB cs
      ∧ (∀ n < 2 ^ 32, (malloc s.heap n).isSome)
      ∧ cs = [tenMiB.start, tenMiB.start + 24, tenMiB.start + 56, tenMiB.start + 96] := by
  obtain ⟨s, hs, hlive, hL⟩ := mixed_heap
  obtain ⟨cs, hlist, htiles, hback⟩ := chunk_list_tiles tenMiB s hs
  exact ⟨s, hs, hlive, cs, hlist, htiles, hback, hlist.unique (layout_chunkList hL)⟩

/-! ## §4. Isolation of live blocks. -/

/-- The block `q` and the bytes `[c, c + k)` have no address in common. -/
def DisjointFrom (q : Nat × Nat) (c k : Nat) : Prop := q.1 + q.2 ≤ c ∨ c + k ≤ q.1

/-- **Isolation.**  In every reachable heap, a block that `malloc` returns lies inside the region,
    apart from every live block and every chunk header, and no `malloc` or `free` changes a byte of
    a live block other than the one being freed. -/
theorem heap_isolation (R : Region) (s : HeapState) (hs : (heapSystem R).Reachable s) :
    (∀ n p h', malloc s.heap n = some (p, h') → p ≠ 0 →
        R.start ≤ p ∧ p + n ≤ R.stop
          ∧ (∀ q ∈ s.live, DisjointFrom q p n)
          ∧ ∀ cs, ChunkList h'.mem h'.first cs → ∀ c ∈ cs, DisjointFrom (p, n) c sizeofMemoryChunk)
      ∧ ∀ op s', HeapStep s op s' → op ≠ .store →
          ∀ q ∈ s.live, op ≠ .free q.1 → ∀ y, InBlock q y → s'.heap.mem y = s.heap.mem y := by
  obtain ⟨bs, hL, hlive⟩ := heapInv_reachable hs
  refine ⟨fun n p h' hm hp => ?_, fun op s' hst hop q hq hfree y hy => ?_⟩
  · rcases malloc_step hL hlive hm with ⟨h0, _⟩ | ⟨bs', _, hL', _, hnew, hold, _⟩
    · exact absurd h0 hp
    obtain ⟨x, b, hpx, hx, _, hsize⟩ := id hnew
    have hbounds := lookup_bounds 16 hx
    have hcover := hL'.cover
    simp only at hpx hsize
    refine ⟨by omega, by omega, fun q hq => ?_, fun cs hcs c hc => ?_⟩
    · -- two payloads of the new list
      obtain ⟨hne, y, c, hqy, hy, _, hqs⟩ := hold q hq
      unfold DisjointFrom
      rcases Nat.lt_or_gt_of_ne (show y ≠ x by omega) with hlt | hgt
      · have := lookup_disjoint hy hx hlt
        omega
      · have := lookup_disjoint hx hy hgt
        omega
    · -- the list from `first` is the one of the layout
      rw [hcs.unique (layout_chunkList hL')] at hc
      exact header_apart hnew hc
  · cases hst with
    | @malloc n p h' hn hm =>
      rcases malloc_step hL hlive hm with ⟨_, rfl⟩ | ⟨bs', _, _, hH, _, hold, _⟩
      · rfl
      · exact payload_frame hH (hold q hq).2 hy
    | @free p n hp =>
      obtain ⟨bs', _, hH, _⟩ := free_step hL hlive hp
      exact payload_frame hH (hlive q hq) hy
    | store _ => exact absurd rfl hop

/-- The freed block is handed out again, apart from the live ones, and one of these keeps its bytes
    when the other is freed. -/
theorem heap_isolation_mixed : ∃ s, (heapSystem tenMiB).Reachable s
    ∧ s.live = [(tenMiB.start + 72, 24), (tenMiB.start + 16, 8)]
    ∧ (∃ h', malloc s.heap 15 = some (tenMiB.start + 40, h')
        ∧ ∀ q ∈ s.live, DisjointFrom q (tenMiB.start + 40) 15)
    ∧ ∀ y, InBlock (tenMiB.start + 72, 24) y →
        (MemoryManager.free s.heap (tenMiB.start + 16)).mem y = s.heap.mem y := by
  obtain ⟨s, hs, hlive, hL⟩ := mixed_heap
  obtain ⟨hmalloc, hkeep⟩ := heap_isolation tenMiB s hs
  have href := malloc_refines (n := 15) hL
  have hff : firstFit 16 15 tenMiB.start [⟨8, true⟩, ⟨16, false⟩, ⟨24, true⟩, ⟨1048464, false⟩]
      = some (tenMiB.start + 24, [⟨8, true⟩, ⟨16, true⟩, ⟨24, true⟩, ⟨1048464, false⟩]) := by
    decide
  rw [hff] at href
  obtain ⟨h', hm, _⟩ := href
  refine ⟨s, hs, hlive, ⟨h', hm, (hmalloc 15 _ h' hm (by decide)).2.2.1⟩, fun y hy => ?_⟩
  refine hkeep (.free (tenMiB.start + 16)) _ (.free (n := 8) ?_) ?_ _ ?_ ?_ y hy
  · rw [hlive]
    decide
  · simp
  · rw [hlive]
    decide
  · simp

end SystemOS.Kernel.HeapRuns
