/-
  SystemOS.Kernel.HeapLayout — the chunk list in memory refines a list of extents.

  `Chain` says that the headers from address `a` on are those of a list of blocks laid end to end;
  `Layout` that the whole heap is such a list covering its region, with no two free neighbours.

  Main results:
    * `scan_eq_firstFit` — the scan of `malloc` finds the first fitting block.
    * `malloc_refines`   — `malloc` is `Extent.firstFit`, and writes header bytes only.
    * `init_listed`      — the constructor makes one free block.
    * `free_refines`     — `free` is `Extent.release`, and writes header bytes only.
-/
import SystemOS.Kernel.MemoryManager
import SystemOS.Lib.Extent

namespace SystemOS.Kernel.HeapLayout

open SystemOS.Lib.ByteMemory
open SystemOS.Lib.Extent
open SystemOS.Kernel.MemoryManager

/-! ## §1. Chains of headers. -/

/-- The pointer to a header at `x` in a region that ends at `stop`: null behind the last chunk. -/
def link (stop x : Nat) : Nat := if x = stop then 0 else x

/-- The headers from address `a` on are those of `bs` laid end to end; `p` is the predecessor. -/
def Chain (m : Mem) (stop : Nat) : Nat → Nat → List Block → Prop
  | _, _, [] => True
  | p, a, b :: bs =>
      chunkAt m a = ⟨link stop (a + 16 + b.size), p, b.used, b.size⟩
        ∧ Chain m stop a (a + 16 + b.size) bs

/-- A memory region a `MemoryManager` can be given: not at address 0, room for one header, and not
    reaching the end of the 32-bit address space. -/
structure Region where
  start : Nat
  size : Nat
  start_pos : 0 < start
  room : sizeofMemoryChunk ≤ size
  below : start + size < 2 ^ 32

/-- The address behind the region. -/
def Region.stop (R : Region) : Nat := R.start + R.size

/-- The heap over the region `R` is the list of blocks `bs`. -/
structure Layout (R : Region) (h : Heap) (bs : List Block) : Prop where
  first : h.first = R.start
  cover : R.start + span 16 bs = R.stop
  chain : Chain h.mem R.stop 0 R.start bs
  separated : Separated bs

/-- `m'` differs from `m` on the header bytes of the chunks in `A` only. -/
def HeadersOnly (A : List Nat) (m m' : Mem) : Prop :=
  ∀ y, (∀ c ∈ A, y < c ∨ c + 16 ≤ y) → m' y = m y

theorem HeadersOnly.trans {A : List Nat} {m₁ m₂ m₃ : Mem} (h : HeadersOnly A m₁ m₂)
    (k : HeadersOnly A m₂ m₃) : HeadersOnly A m₁ m₃ :=
  fun y hy => (k y hy).trans (h y hy)

theorem HeadersOnly.mono {A B : List Nat} {m m' : Mem} (h : HeadersOnly A m m')
    (hAB : ∀ c ∈ A, c ∈ B) : HeadersOnly B m m' :=
  fun y hy => h y fun c hc => hy c (hAB c hc)

theorem HeadersOnly.of_updates {A : List Nat} {m m' : Mem} {c : Nat} {v : MemoryChunk}
    (h : Updates m m' c v) (hc : c ∈ A) : HeadersOnly A m m' :=
  fun y hy => h.frame y (hy c hc)

theorem chain_append {m : Mem} {stop p a : Nat} (bs cs : List Block) :
    Chain m stop p a (bs ++ cs)
      ↔ Chain m stop p a bs ∧ Chain m stop (lastAddr 16 p a bs) (a + span 16 bs) cs := by
  induction bs generalizing p a with
  | nil => simp [Chain, lastAddr, span]
  | cons b bs ih =>
    simp only [List.cons_append, Chain, lastAddr, span, ih, and_assoc,
      show a + 16 + b.size + span 16 bs = a + (16 + b.size + span 16 bs) by omega]

/-- A chain reads the bytes of its headers only. -/
theorem chain_congr {m m' : Mem} {stop p a : Nat} {bs : List Block}
    (hag : ∀ x ∈ addrs 16 a bs, ∀ y, x ≤ y → y < x + 16 → m' y = m y)
    (h : Chain m stop p a bs) : Chain m' stop p a bs := by
  induction bs generalizing p a with
  | nil => trivial
  | cons b bs ih =>
    obtain ⟨hb, hbs⟩ := h
    refine ⟨?_, ih (fun x hx => hag x (List.mem_cons_of_mem _ hx)) hbs⟩
    rw [chunkAt_congr fun y hy hy' => hag a List.mem_cons_self y hy hy', hb]

/-- Chains survive writes outside the region they cover. -/
theorem chain_frame {m m' : Mem} {stop p a : Nat} {bs : List Block}
    (hag : ∀ y, a ≤ y → y < a + span 16 bs → m' y = m y)
    (h : Chain m stop p a bs) : Chain m' stop p a bs := by
  refine chain_congr (fun x hx y hy hy' => ?_) h
  obtain ⟨b, hb⟩ := mem_addrs_iff.mp hx
  have := lookup_bounds 16 hb
  exact hag y (by omega) (by omega)

/-- The header of a block of the chain. -/
theorem chunkAt_of_lookup {m : Mem} {stop p a x : Nat} {bs : List Block} {b : Block}
    (h : Chain m stop p a bs) (hx : lookup 16 a bs x = some b) :
    (chunkAt m x).next = link stop (x + 16 + b.size) ∧ (chunkAt m x).allocated = b.used
      ∧ (chunkAt m x).size = b.size := by
  induction bs generalizing p a with
  | nil => simp [lookup] at hx
  | cons c bs ih =>
    obtain ⟨hc, hbs⟩ := h
    simp only [lookup] at hx
    split at hx
    · rename_i hxa
      simp only [Option.some.injEq] at hx
      subst hx hxa
      simp [hc]
    · exact ih hbs hx

/-- A chain whose first header got a new `prev`, everything behind that header being untouched. -/
theorem chain_relink {m m' : Mem} {stop p q a : Nat} {bs : List Block}
    (hfst : bs ≠ [] → chunkAt m' a = { chunkAt m a with prev := q })
    (hag : ∀ y, a + 16 ≤ y → y < a + span 16 bs → m' y = m y)
    (h : Chain m stop p a bs) : Chain m' stop q a bs := by
  cases bs with
  | nil => trivial
  | cons b bs =>
    obtain ⟨hb, hbs⟩ := h
    refine ⟨by rw [hfst (by simp), hb], chain_frame (fun y hy hy' => hag y (by omega) ?_) hbs⟩
    simp only [span]
    omega

/-- The pointer behind a chain that ends at `stop` is null exactly when nothing follows. -/
theorem link_eq_zero {stop a : Nat} {bs : List Block} (ha : 0 < a) (hstop : a + span 16 bs = stop) :
    link stop a = 0 ↔ bs = [] := by
  unfold link
  cases bs with
  | nil => simp [span] at hstop; simp [hstop]
  | cons b bs => simp only [span] at hstop; simp; omega

theorem link_of_ne_nil {stop a : Nat} {bs : List Block} (hstop : a + span 16 bs = stop)
    (hne : bs ≠ []) : link stop a = a := by
  unfold link
  cases bs with
  | nil => exact absurd rfl hne
  | cons b bs => simp only [span] at hstop; rw [if_neg (by omega)]

/-- Where a list goes on, the region does not end. -/
theorem end_ne {e stop : Nat} {bs : List Block} (h : e + span 16 bs = stop) (hne : bs ≠ []) :
    e ≠ stop := by
  cases bs with
  | nil => exact absurd rfl hne
  | cons b bs =>
    simp only [span] at h
    omega

/-- Where the region does not end, there is a chunk. -/
theorem head_mem_addrs {e stop : Nat} {bs : List Block} (h : e + span 16 bs = stop)
    (hes : e ≠ stop) : e ∈ addrs 16 e bs := by
  cases bs with
  | nil => exact absurd h hes
  | cons b bs => exact List.mem_cons_self

/-- A byte in no header of the list is not in the first one, if there is any. -/
theorem outside_head {e stop y : Nat} {bs : List Block} (h : e + span 16 bs = stop)
    (hy : ∀ c ∈ addrs 16 e bs, y < c ∨ c + 16 ≤ y) : y < e ∨ e + 16 ≤ y ∨ e = stop := by
  by_cases hes : e = stop
  · exact .inr (.inr hes)
  · have := hy e (head_mem_addrs h hes)
    omega

theorem link_lt {stop x : Nat} (hx : x ≤ stop) (hstop : stop ≤ 2 ^ 32) : link stop x < 2 ^ 32 := by
  unfold link
  split <;> omega

/-! ## §2. The scan. -/

/-- **The scan is first fit.** -/
theorem scan_eq_firstFit {m : Mem} {stop n : Nat} :
    ∀ (bs : List Block) (p a fuel : Nat), 0 < a → a + span 16 bs = stop → bs.length < fuel →
      Chain m stop p a bs →
      scan m n fuel (link stop a) = some ((firstFit 16 n a bs).elim 0 Prod.fst)
  | [], p, a, fuel + 1, ha, hstop, _, _ => by
      rw [scan, if_pos ((link_eq_zero ha hstop).mpr rfl)]
      rfl
  | b :: bs, p, a, fuel + 1, ha, hstop, hfuel, h => by
      obtain ⟨hb, hbs⟩ := h
      have hlink : link stop a = a := link_of_ne_nil hstop (by simp)
      rw [hlink, scan, if_neg (by omega), hb]
      by_cases hfit : Fits n b
      · -- the test of the loop is `Fits`
        rw [show firstFit 16 n a (b :: bs) = some (a, carve 16 n b ++ bs) by
              simp only [firstFit, if_pos hfit],
            if_pos ⟨hfit.1, hfit.2⟩]
        rfl
      · simp only [span] at hstop
        rw [show firstFit 16 n a (b :: bs)
              = (firstFit 16 n (a + 16 + b.size) bs).map (fun r => (r.1, b :: r.2)) by
              simp only [firstFit, if_neg hfit],
            if_neg fun h => hfit ⟨h.1, h.2⟩,
            scan_eq_firstFit bs a (a + 16 + b.size) fuel (by omega) (by omega)
              (by simpa using hfuel) hbs]
        cases firstFit 16 n (a + 16 + b.size) bs <;> rfl

/-! ## §3. `malloc`. -/

/-- `m'` is `m` after the header at `l` was written as `v`: the chunk `e` that follows (if any)
    points back to `l`, and no other byte changed. -/
structure Merged (m m' : Mem) (stop l e : Nat) (v : MemoryChunk) : Prop where
  head : chunkAt m' l = v
  back : e ≠ stop → chunkAt m' e = { chunkAt m e with prev := l }
  frame : ∀ y, (y < l ∨ l + 16 ≤ y) → (y < e ∨ e + 16 ≤ y ∨ e = stop) → m' y = m y

/-- The last write of the split and of both halves of `free`: the chunk behind points back to
    `l`. -/
theorem merged_of_back {m m₁ : Mem} {stop l e : Nat} {v : MemoryChunk} (hle : l + 16 ≤ e)
    (he : e ≤ stop) (hstop : stop ≤ 2 ^ 32) (hhead : chunkAt m₁ l = v)
    (hframe : ∀ y, (y < l ∨ l + 16 ≤ y) → m₁ y = m y) :
    Merged m (if link stop e ≠ 0 then setPrev m₁ (link stop e) l else m₁) stop l e v := by
  by_cases hes : e = stop
  · have hlink : link stop e = 0 := by simp [link, hes]
    rw [hlink, if_neg (by simp)]
    exact ⟨hhead, fun h => absurd hes h, fun y hy _ => hframe y hy⟩
  · have hlink : link stop e = e := by simp [link, hes]
    rw [hlink, if_pos (by omega)]
    have U : Updates m₁ (setPrev m₁ e l) e _ := updates_setPrev m₁ e (by omega)
    refine ⟨?_, fun _ => ?_, fun y hyl hye => ?_⟩
    · rw [U.apart (Or.inr hle), hhead]
    · rw [U.here, chunkAt_congr fun x hx _ => hframe x (by omega)]
    · rw [U.frame y (by omega), hframe y hyl]

/-- The split writes three headers: `r` is cut to `n` bytes, the rest becomes a free chunk `t`, and
    the chunk `c` that `r` pointed to (if any) now points back to `t`. -/
theorem split_headers {m : Mem} {r n t c p s : Nat} {u : Bool}
    (htemp : add32 (add32 r sizeofMemoryChunk) n = t) (hn : n + 16 ≤ s) (hs : s < 2 ^ 32)
    (hr32 : r < 2 ^ 32) (hc32 : c < 2 ^ 32) (htr : Apart t r) (hct : c ≠ 0 → Apart c t)
    (hcr : c ≠ 0 → Apart c r) (hr : chunkAt m r = ⟨c, p, u, s⟩) :
    chunkAt (split m r n) r = ⟨t, p, u, n⟩
      ∧ chunkAt (split m r n) t = ⟨c, r, false, s - n - 16⟩
      ∧ (c ≠ 0 → chunkAt (split m r n) c = { chunkAt m c with prev := t })
      ∧ ∀ y, (y < r ∨ r + 16 ≤ y) → (y < t ∨ t + 16 ≤ y) → (c = 0 ∨ y < c ∨ c + 16 ≤ y) →
          split m r n y = m y := by
  have ht32 : t < 2 ^ 32 := htemp ▸ Nat.mod_lt _ (by omega)
  -- the new header `t`, written apart from `r`
  set m₁ := setAllocated m t false with hm₁
  have U₁ : Updates m m₁ t _ := updates_setAllocated m t false
  have hr₁ : chunkAt m₁ r = ⟨c, p, u, s⟩ := by rw [U₁.apart htr, hr]
  set m₂ := setSize m₁ t (s - n - 16) with hm₂
  have U₂ : Updates m₁ m₂ t _ := updates_setSize m₁ t (by omega)
  set m₃ := setPrev m₂ t r with hm₃
  have U₃ : Updates m₂ m₃ t _ := updates_setPrev m₂ t hr32
  have hr₃ : chunkAt m₃ r = ⟨c, p, u, s⟩ := by rw [U₃.apart htr, U₂.apart htr, hr₁]
  set m₄ := setNext m₃ t c with hm₄
  have U₄ : Updates m₃ m₄ t _ := updates_setNext m₃ t hc32
  have ht₄ : chunkAt m₄ t = ⟨c, r, false, s - n - 16⟩ := by
    rw [U₄.here, U₃.here, U₂.here, U₁.here]
  have hr₄ : chunkAt m₄ r = ⟨c, p, u, s⟩ := by rw [U₄.apart htr, hr₃]
  have hframe₄ : ∀ y, (y < t ∨ t + 16 ≤ y) → m₄ y = m y := fun y hy => by
    rw [U₄.frame y hy, U₃.frame y hy, U₂.frame y hy, U₁.frame y hy]
  -- the back pointer of the chunk behind
  set m₅ := (if c ≠ 0 then setPrev m₄ c t else m₄) with hm₅
  have hback : (chunkAt m₅ t = ⟨c, r, false, s - n - 16⟩ ∧ chunkAt m₅ r = ⟨c, p, u, s⟩)
      ∧ (c ≠ 0 → chunkAt m₅ c = { chunkAt m c with prev := t })
      ∧ ∀ y, (c = 0 ∨ y < c ∨ c + 16 ≤ y) → m₅ y = m₄ y := by
    by_cases hc : c = 0
    · rw [hm₅, if_neg (not_not.mpr hc)]
      exact ⟨⟨ht₄, hr₄⟩, fun h => absurd hc h, fun y _ => rfl⟩
    · rw [hm₅, if_pos hc]
      have U₅ : Updates m₄ (setPrev m₄ c t) c _ := updates_setPrev m₄ c ht32
      have hc₄ : chunkAt m₄ c = chunkAt m c := by
        have hapart := hct hc
        refine chunkAt_congr fun y _ _ => hframe₄ y ?_
        unfold Apart at hapart
        omega
      refine ⟨⟨by rw [U₅.apart (hct hc), ht₄], by rw [U₅.apart (hcr hc), hr₄]⟩, fun _ => ?_,
        fun y hy => U₅.frame y (by omega)⟩
      rw [U₅.here, hc₄]
  obtain ⟨⟨ht₅, hr₅⟩, hc₅, hframe₅⟩ := hback
  -- the shortened `r`
  have U₆ : Updates m₅ (setSize m₅ r n) r _ := updates_setSize m₅ r (by omega)
  have U₇ : Updates (setSize m₅ r n) (setNext (setSize m₅ r n) r t) r _ := updates_setNext _ r ht32
  have hsplit : split m r n = setNext (setSize m₅ r n) r t := by
    have hrest : sub32 (sub32 s n) sizeofMemoryChunk = s - n - 16 := by
      rw [sizeofMemoryChunk, sub32_eq (a := s) (by omega) (by omega), sub32_eq (by omega) (by omega)]
    simp only [split, htemp, ← hm₁, hr₁, hrest, ← hm₂, ← hm₃, hr₃, ← hm₄, ht₄, ← hm₅]
  rw [hsplit]
  refine ⟨?_, ?_, fun hc => ?_, fun y hyr hyt hyc => ?_⟩
  · rw [U₇.here, U₆.here, hr₅]
  · rw [U₇.apart htr.symm, U₆.apart htr.symm, ht₅]
  · rw [U₇.apart (hcr hc).symm, U₆.apart (hcr hc).symm, hc₅ hc]
  · rw [U₇.frame y hyr, U₆.frame y hyr, hframe₅ y hyc, hframe₄ y hyt]

/-- **The split** of a block of the list: the rest lies right behind. -/
theorem split_spec {m : Mem} {stop r n p s : Nat} {u : Bool} (hn : n + 17 ≤ s)
    (hend : r + 16 + s ≤ stop) (hstop : stop ≤ 2 ^ 32)
    (hr : chunkAt m r = ⟨link stop (r + 16 + s), p, u, s⟩) :
    chunkAt (split m r n) r = ⟨r + 16 + n, p, u, n⟩
      ∧ chunkAt (split m r n) (r + 16 + n) = ⟨link stop (r + 16 + s), r, false, s - n - 16⟩
      ∧ (r + 16 + s ≠ stop → chunkAt (split m r n) (r + 16 + s)
          = { chunkAt m (r + 16 + s) with prev := r + 16 + n })
      ∧ ∀ y, (y < r ∨ r + 16 ≤ y) → (y < r + 16 + n ∨ r + 16 + n + 16 ≤ y) →
          (y < r + 16 + s ∨ r + 16 + s + 16 ≤ y ∨ r + 16 + s = stop) → split m r n y = m y := by
  have htemp : add32 (add32 r sizeofMemoryChunk) n = r + 16 + n := by
    rw [sizeofMemoryChunk, add32_eq (a := r) (by omega), add32_eq (by omega)]
  have hlink : link stop (r + 16 + s) = 0 ∧ r + 16 + s = stop
      ∨ link stop (r + 16 + s) = r + 16 + s ∧ r + 16 + s ≠ stop := by
    unfold link
    split
    · rename_i h
      exact .inl ⟨rfl, h⟩
    · rename_i h
      exact .inr ⟨rfl, h⟩
  obtain ⟨hhead, hrest, hback, hframe⟩ := split_headers htemp (by omega) (by omega) (by omega)
    (link_lt hend hstop) (.inr (by omega)) (fun _ => .inr (by omega)) (fun _ => .inr (by omega)) hr
  refine ⟨hhead, hrest, fun hc => ?_, fun y hyr hyt hyc => hframe y hyr hyt (by omega)⟩
  rcases hlink with ⟨_, hlast⟩ | ⟨hnext, _⟩
  · exact absurd hlast hc
  · rw [hnext] at hback
    exact hback (by omega)

/-- The chain after `malloc` at a block with room for another header: `r`, the new chunk and the
    header behind them are rewritten. -/
theorem split_chain {m : Mem} {stop a n : Nat} {pre post : List Block} {b : Block}
    (hend : a + span 16 (pre ++ b :: post) = stop) (hstop : stop ≤ 2 ^ 32) (hroom : n + 17 ≤ b.size)
    (h : Chain m stop 0 a (pre ++ b :: post)) (r : Nat) (hr : r = a + span 16 pre) :
    Chain (setAllocated (split m r n) r true) stop 0 a
        (pre ++ ⟨n, true⟩ :: ⟨b.size - n - 16, false⟩ :: post)
      ∧ HeadersOnly (addrs 16 a (pre ++ ⟨n, true⟩ :: ⟨b.size - n - 16, false⟩ :: post)) m
          (setAllocated (split m r n) r true) := by
  rw [chain_append] at h
  obtain ⟨hpre, hb, hpost⟩ := h
  rw [← hr] at hb hpost
  simp only [span_append, span] at hend
  obtain ⟨hr', ht', hc', hfr⟩ := split_spec hroom (by omega) hstop hb
  have U := updates_setAllocated (split m r n) r true
  have hbehind : r + 16 + n + 16 + (b.size - n - 16) = r + 16 + b.size := by omega
  refine ⟨?_, fun y hy => ?_⟩
  · -- the chunks before `r` lie below all three headers
    rw [chain_append]
    refine ⟨chain_frame (fun y hy hy' => ?_) hpre, ?_⟩
    · rw [U.frame y (by omega), hfr y (by omega) (by omega) (by omega)]
    rw [← hr]
    refine ⟨?_, ?_, ?_⟩
    · rw [U.here, hr']
      simp only [link]
      rw [if_neg (by omega)]
    · rw [U.apart (Or.inl (by omega)), ht', hbehind]
    · rw [hbehind]
      refine chain_relink (fun hne => ?_) (fun y hy hy' => ?_) hpost
      · have hcs : r + 16 + b.size ≠ stop := @end_ne _ stop post (by omega) hne
        rw [U.apart (Or.inl (by omega)), hc' hcs]
      · rw [U.frame y (by omega), hfr y (by omega) (by omega) (by omega)]
  · -- the three headers belong to chunks of the new list
    simp only [addrs_append, addrs, List.mem_append, List.mem_cons, ← hr, hbehind] at hy
    have hyr := hy r (.inr (.inl rfl))
    have hyt := hy (r + 16 + n) (.inr (.inr (.inl rfl)))
    have hyc := @outside_head (r + 16 + b.size) stop y post (by omega) fun c hc =>
      hy c (.inr (.inr (.inr hc)))
    rw [U.frame y hyr, hfr y hyr hyt hyc]

/-- The chain after `malloc` at a fitting block, split or not. -/
theorem malloc_chain {m : Mem} {stop a n : Nat} {pre post : List Block} {b : Block} (ha : 0 < a)
    (hend : a + span 16 (pre ++ b :: post) = stop) (hstop : stop ≤ 2 ^ 32)
    (hfit : Fits n b) (h : Chain m stop 0 a (pre ++ b :: post)) (r : Nat)
    (hr : r = a + span 16 pre) (m' : Mem)
    (hm' : m' = setAllocated (if add32 (add32 n sizeofMemoryChunk) 1 ≤ (chunkAt m r).size
      then split m r n else m) r true) :
    Chain m' stop 0 a (pre ++ carve 16 n b ++ post)
      ∧ HeadersOnly (addrs 16 a (pre ++ carve 16 n b ++ post)) m m' := by
  obtain ⟨hn, hfree⟩ := hfit
  have hall := h
  rw [chain_append] at h
  obtain ⟨hpre, hb, hpost⟩ := h
  rw [← hr] at hb hpost
  have hcover := hend
  simp only [span_append, span] at hend
  have hsize : (chunkAt m r).size = b.size := by rw [hb]
  have hsum : add32 (add32 n sizeofMemoryChunk) 1 = n + 17 := by
    rw [sizeofMemoryChunk, add32_eq (a := n) (by omega), add32_eq (by omega)]
  rw [hsize, hsum] at hm'
  by_cases hroom : n + 17 ≤ b.size
  · have hcarve : carve 16 n b = [⟨n, true⟩, ⟨b.size - n - 16, false⟩] := by
      unfold carve
      rw [if_pos (by omega)]
    rw [hm', if_pos hroom, hcarve, List.append_assoc]
    exact split_chain hcover hstop hroom hall r hr
  · -- no room for another header: the whole block is handed out
    rw [if_neg hroom] at hm'
    have U := updates_setAllocated m r true
    rw [← hm'] at U
    have hcarve : carve 16 n b = [⟨b.size, true⟩] := by
      unfold carve
      rw [if_neg (by omega)]
    rw [hcarve, List.append_assoc]
    refine ⟨?_, HeadersOnly.of_updates U ?_⟩
    · rw [chain_append]
      refine ⟨chain_frame (fun y hy hy' => U.frame y (by omega)) hpre, ?_⟩
      rw [← hr]
      exact ⟨by rw [U.here, hb], chain_frame (fun y hy _ => U.frame y (by omega)) hpost⟩
    · simp [addrs_append, addrs, hr]

/-- The heap from `a` to `stop` is the list of blocks `bs`. -/
structure Listed (a stop : Nat) (h : Heap) (bs : List Block) : Prop where
  first : h.first = a
  cover : a + span 16 bs = stop
  chain : Chain h.mem stop 0 a bs

/-- The whole chunk list is walked within the fuel of the scan. -/
theorem Listed.length_lt {a stop : Nat} {h : Heap} {bs : List Block} (hL : Listed a stop h bs)
    (hstop : stop ≤ 2 ^ 32) : bs.length < scanFuel := by
  have hlen : 16 * bs.length ≤ span 16 bs := length_le_span bs
  have hcover := hL.cover
  unfold scanFuel
  omega

/-- **`malloc` is first fit**: it returns null and changes nothing when no block fits, and otherwise
    carves the first fitting block, writing header bytes only. -/
theorem malloc_listed {a stop n : Nat} {h : Heap} {bs : List Block} (ha : 0 < a)
    (hstop : stop ≤ 2 ^ 32) (hne : bs ≠ []) (hL : Listed a stop h bs) :
    match firstFit 16 n a bs with
    | none => malloc h n = some (0, h)
    | some (x, bs') => ∃ h', malloc h n = some (x + 16, h') ∧ Listed a stop h' bs'
        ∧ HeadersOnly (addrs 16 a bs') h.mem h'.mem := by
  -- the loop ends within its fuel, at the block that first fit chooses
  have hscan : scan h.mem n scanFuel h.first
      = some ((firstFit 16 n a bs).elim 0 Prod.fst) := by
    rw [hL.first, ← link_of_ne_nil hL.cover hne]
    rw [scan_eq_firstFit bs 0 a scanFuel ha hL.cover (hL.length_lt hstop) hL.chain,
        link_of_ne_nil hL.cover hne]
  cases hff : firstFit 16 n a bs with
  | none =>
    rw [hff] at hscan
    have hscan0 : scan h.mem n scanFuel h.first = some 0 := hscan
    simp only [malloc, hscan0, if_true]
  | some r =>
    obtain ⟨x, bs'⟩ := r
    rw [hff] at hscan
    have hscanx : scan h.mem n scanFuel h.first = some x := hscan
    obtain ⟨pre, b, post, hbs, _, hfit, hx, hbs'⟩ := firstFit_spec hff
    have hcover := hL.cover
    have hcover' : a + span 16 bs' = stop := by rw [span_firstFit hff, hcover]
    have hchain := hL.chain
    rw [hbs] at hcover hchain
    obtain ⟨hC, hH⟩ := malloc_chain ha hcover hstop hfit hchain x hx _ rfl
    simp only [span_append, span] at hcover
    have hret : add32 x sizeofMemoryChunk = x + 16 := by
      have hsize := hfit.1
      exact add32_eq (by unfold sizeofMemoryChunk; omega)
    -- the region does not start at 0, so `x` is no null pointer
    simp only [malloc, hscanx, if_neg (show x ≠ 0 by omega), hret]
    refine ⟨_, rfl, ⟨hL.first, hcover', ?_⟩, ?_⟩
    · rw [hbs']
      exact hC
    · rw [hbs']
      exact hH

theorem Layout.ne_nil {R : Region} {h : Heap} {bs : List Block} (hL : Layout R h bs) : bs ≠ [] := by
  intro heq
  subst heq
  have := hL.cover
  have := R.room
  simp only [span, Region.stop, sizeofMemoryChunk] at *
  omega

theorem Layout.listed {R : Region} {h : Heap} {bs : List Block} (hL : Layout R h bs) :
    Listed R.start R.stop h bs := ⟨hL.first, hL.cover, hL.chain⟩

/-- **`malloc` refines first fit** on the list of blocks of a region. -/
theorem malloc_refines {R : Region} {n : Nat} {h : Heap} {bs : List Block} (hL : Layout R h bs) :
    match firstFit 16 n R.start bs with
    | none => malloc h n = some (0, h)
    | some (x, bs') => ∃ h', malloc h n = some (x + 16, h') ∧ Layout R h' bs'
        ∧ HeadersOnly (addrs 16 R.start bs') h.mem h'.mem := by
  have hlisted := malloc_listed (n := n) R.start_pos R.below.le hL.ne_nil hL.listed
  cases hff : firstFit 16 n R.start bs with
  | none =>
    rw [hff] at hlisted
    exact hlisted
  | some r =>
    obtain ⟨x, bs'⟩ := r
    rw [hff] at hlisted
    obtain ⟨h', hm, hL', hH⟩ := hlisted
    exact ⟨h', hm, ⟨hL'.first, hL'.cover, hL'.chain, separated_firstFit hff hL.separated⟩, hH⟩

/-! ## §4. `free`. -/

theorem joinNext_spec {m : Mem} {stop c s t p q : Nat} {u : Bool}
    (hend : c + 16 + s + 16 + t ≤ stop) (hstop : stop < 2 ^ 32)
    (hc : chunkAt m c = ⟨link stop (c + 16 + s), p, u, s⟩)
    (hd : chunkAt m (c + 16 + s) = ⟨link stop (c + 16 + s + 16 + t), q, false, t⟩) :
    Merged m (joinNext m c) stop c (c + 16 + s + 16 + t)
      ⟨link stop (c + 16 + s + 16 + t), p, u, s + 16 + t⟩ := by
  set d := c + 16 + s with hd_def
  set e := d + 16 + t with he_def
  have hlink : link stop d = d := by simp only [link]; rw [if_neg (by omega)]
  have hcd : Apart c d := Or.inl (by omega)
  have hsum : add32 s (add32 t sizeofMemoryChunk) = s + 16 + t := by
    rw [sizeofMemoryChunk, add32_eq (a := t) (by omega), add32_eq (by omega)]
    omega
  rw [hlink] at hc
  -- the two writes into the header of `c`; the third one is that of `merged_of_back`
  have U₁ : Updates m (setSize m c (s + 16 + t)) c _ := updates_setSize m c (by omega)
  have U₂ : Updates (setSize m c (s + 16 + t)) (setNext (setSize m c (s + 16 + t)) c (link stop e))
      c _ := updates_setNext _ c (link_lt (by omega) (by omega))
  have hhead : chunkAt (setNext (setSize m c (s + 16 + t)) c (link stop e)) c
      = ⟨link stop e, p, u, s + 16 + t⟩ := by
    rw [U₂.here, U₁.here, hc]
  have hjoin : joinNext m c = if link stop e ≠ 0
      then setPrev (setNext (setSize m c (s + 16 + t)) c (link stop e)) (link stop e) c
      else setNext (setSize m c (s + 16 + t)) c (link stop e) := by
    simp only [joinNext, hc, hd, hsum, U₁.apart hcd, hhead]
    rw [if_pos ⟨by omega, trivial⟩]
  rw [hjoin]
  exact merged_of_back (by omega) hend hstop.le hhead
    fun y hy => by rw [U₂.frame y hy, U₁.frame y hy]

theorem joinPrev_spec {m : Mem} {stop l s t p : Nat} {u : Bool} (hl0 : 0 < l)
    (hend : l + 16 + s + 16 + t ≤ stop) (hstop : stop < 2 ^ 32)
    (hl : chunkAt m l = ⟨link stop (l + 16 + s), p, false, s⟩)
    (hc : chunkAt m (l + 16 + s) = ⟨link stop (l + 16 + s + 16 + t), l, u, t⟩) :
    (joinPrev m (l + 16 + s)).2 = l
      ∧ Merged m (joinPrev m (l + 16 + s)).1 stop l (l + 16 + s + 16 + t)
          ⟨link stop (l + 16 + s + 16 + t), p, false, s + 16 + t⟩ := by
  set c := l + 16 + s with hc_def
  set e := c + 16 + t with he_def
  have hlc : Apart l c := Or.inl (by omega)
  have hsum : add32 s (add32 t sizeofMemoryChunk) = s + 16 + t := by
    rw [sizeofMemoryChunk, add32_eq (a := t) (by omega), add32_eq (by omega)]
    omega
  -- the two writes into the header of `l`; `c` keeps its own, which is read again
  set m₁ := setNext m l (link stop e) with hm₁
  have U₁ : Updates m m₁ l _ := updates_setNext m l (link_lt (by omega) (by omega))
  set m₂ := setSize m₁ l (s + 16 + t) with hm₂
  have U₂ : Updates m₁ m₂ l _ := updates_setSize m₁ l (by omega)
  have hhead : chunkAt m₂ l = ⟨link stop e, p, false, s + 16 + t⟩ := by rw [U₂.here, U₁.here, hl]
  have hjoin : joinPrev m c
      = (if link stop e ≠ 0 then setPrev m₂ (link stop e) l else m₂, l) := by
    simp only [joinPrev, hc, hl, ← hm₁, U₁.here, U₁.apart hlc, hsum, ← hm₂, U₂.apart hlc]
    rw [if_pos ⟨by omega, trivial⟩]
  rw [hjoin]
  exact ⟨rfl, merged_of_back (by omega) hend hstop.le hhead
    fun y hy => (U₂.frame y hy).trans (U₁.frame y hy)⟩

/-- Taking over the successor, seen on the chain. -/
theorem merged_chain {m m' : Mem} {stop p a : Nat} {pre post : List Block} {l b : Block} (x e : Nat)
    (hx : x = a + span 16 pre) (he : e = x + 16 + l.size + 16 + b.size)
    (hend : a + span 16 (pre ++ l :: b :: post) = stop)
    (h : Chain m stop p a (pre ++ l :: b :: post))
    (hM : Merged m m' stop x e
      ⟨link stop e, lastAddr 16 p a pre, l.used, l.size + 16 + b.size⟩) :
    Chain m' stop p a (pre ++ ⟨l.size + 16 + b.size, l.used⟩ :: post)
      ∧ HeadersOnly (addrs 16 a (pre ++ l :: b :: post)) m m' := by
  rw [chain_append] at h
  obtain ⟨hpre, hl, hb, hpost⟩ := h
  rw [← hx] at hl hb hpost
  rw [← he] at hpost
  simp only [span_append, span] at hend
  refine ⟨?_, fun y hy => ?_⟩
  · rw [chain_append, ← hx]
    refine ⟨chain_frame (fun y _ hy' => hM.frame y (by omega) (by omega)) hpre, ?_, ?_⟩
    · rw [hM.head, he]
      simp only [show x + 16 + (l.size + 16 + b.size) = x + 16 + l.size + 16 + b.size by omega]
    · rw [show x + 16 + (l.size + 16 + b.size) = e by omega]
      exact chain_relink (fun hne => hM.back (end_ne (by omega) hne))
        (fun y hy _ => hM.frame y (by omega) (by omega)) hpost
  · -- the headers at `x` and `e` belong to the old list
    simp only [addrs_append, addrs, List.mem_append, List.mem_cons, ← hx, ← he] at hy
    exact hM.frame y (hy x (.inr (.inl rfl))) (@outside_head e stop y post (by omega) fun c hc =>
      hy c (.inr (.inr (.inr hc))))

/-- A neighbour that is missing or handed out leaves the memory as it is, behind the chunk -/
theorem joinNext_skip {m : Mem} {c : Nat}
    (h : (chunkAt m c).next = 0 ∨ (chunkAt m (chunkAt m c).next).allocated = true) :
    joinNext m c = m := by
  simp only [joinNext]
  rw [if_neg]
  intro hboth
  rcases h with h | h
  · exact hboth.1 h
  · cases hboth.2.symm.trans h

/-- and before it. -/
theorem joinPrev_skip {m : Mem} {c : Nat}
    (h : (chunkAt m c).prev = 0 ∨ (chunkAt m (chunkAt m c).prev).allocated = true) :
    joinPrev m c = (m, c) := by
  simp only [joinPrev]
  rw [if_neg]
  intro hboth
  rcases h with h | h
  · exact hboth.1 h
  · cases hboth.2.symm.trans h

/-- The second half of `free` on a free block: it is joined with a free successor. -/
theorem joinNext_chain {m : Mem} {stop p a : Nat} {pre post : List Block} {b : Block} (x : Nat)
    (hx : x = a + span 16 pre) (hb : b.used = false)
    (hend : a + span 16 (pre ++ b :: post) = stop) (hstop : stop < 2 ^ 32)
    (h : Chain m stop p a (pre ++ b :: post)) :
    Chain (joinNext m x) stop p a (pre ++ joinFree 16 b post)
      ∧ HeadersOnly (addrs 16 a (pre ++ b :: post)) m (joinNext m x) := by
  have h' := h
  rw [chain_append] at h'
  obtain ⟨_, hbx, hpost⟩ := h'
  rw [← hx] at hbx hpost
  simp only [span_append, span] at hend
  cases post with
  | nil =>
    rw [joinNext_skip (Or.inl (by rw [hbx]; simp only [span] at hend; simp [link]; omega))]
    exact ⟨h, fun _ _ => rfl⟩
  | cons c cs =>
    simp only [span] at hend
    have hlink : link stop (x + 16 + b.size) = x + 16 + b.size := by
      simp only [link]; rw [if_neg (by omega)]
    obtain ⟨hcx, _⟩ := hpost
    cases hc : c.used with
    | true =>
      rw [joinNext_skip (Or.inr (by rw [hbx]; simp only [hlink, hcx, hc]))]
      have hjf : joinFree 16 b (c :: cs) = b :: c :: cs := by simp [joinFree, hc]
      rw [hjf]
      exact ⟨h, fun _ _ => rfl⟩
    | false =>
      have hjf : joinFree 16 b (c :: cs) = ⟨b.size + 16 + c.size, b.used⟩ :: cs := by
        simp [joinFree, hb, hc]
      rw [hjf]
      rw [hc] at hcx
      have hM := joinNext_spec (by omega) hstop hbx hcx
      exact merged_chain x _ hx rfl (by simp only [span_append, span]; omega) h hM

/-- The first half of `free` on a free block `b` at `x` goes on with the chunk `c` behind `qs`; the
    release of `b` ends in joining `c` with what follows. -/
structure JoinedPrev (m : Mem) (stop a x : Nat) (pre : List Block) (b : Block) (post qs : List Block)
    (c : Block) : Prop where
  here : (joinPrev m x).2 = a + span 16 qs
  unused : c.used = false
  chain : Chain (joinPrev m x).1 stop 0 a (qs ++ c :: post)
  cover : a + span 16 (qs ++ c :: post) = stop
  headers : ∀ z ∈ addrs 16 a (qs ++ c :: post), z ∈ addrs 16 a (pre ++ b :: post)
  writes : HeadersOnly (addrs 16 a (pre ++ b :: post)) m (joinPrev m x).1
  released : ∀ b' : Block, b'.size = b.size → Separated (pre ++ b' :: post) →
    release 16 x a (pre ++ b' :: post) = qs ++ joinFree 16 c post

/-- Without a free predecessor it goes on with `b` itself. -/
theorem JoinedPrev.skip {m : Mem} {stop a x : Nat} {pre post : List Block} {b : Block}
    (hskip : joinPrev m x = (m, x)) (hx : x = a + span 16 pre) (hb : b.used = false)
    (hend : a + span 16 (pre ++ b :: post) = stop) (h : Chain m stop 0 a (pre ++ b :: post))
    (hrel : ∀ b' : Block, b'.size = b.size → Separated (pre ++ b' :: post) →
      release 16 x a (pre ++ b' :: post) = pre ++ joinFree 16 b post) :
    JoinedPrev m stop a x pre b post pre b where
  here := by rw [hskip]; exact hx
  unused := hb
  chain := by rw [hskip]; exact h
  cover := hend
  headers := fun _ hz => hz
  writes := by rw [hskip]; exact fun _ _ => rfl
  released := hrel

/-- A free predecessor takes `b` over. -/
theorem JoinedPrev.merge {m : Mem} {stop a x : Nat} {qs post : List Block} {l b : Block}
    (ha : 0 < a) (hx : x = a + span 16 qs + 16 + l.size) (hl : l.used = false)
    (hend : a + span 16 (qs ++ l :: b :: post) = stop) (hstop : stop < 2 ^ 32)
    (h : Chain m stop 0 a (qs ++ l :: b :: post))
    (hrel : ∀ b' : Block, b'.size = b.size → Separated (qs ++ [l] ++ b' :: post) →
      release 16 x a (qs ++ [l] ++ b' :: post)
        = qs ++ joinFree 16 ⟨l.size + 16 + b.size, false⟩ post) :
    JoinedPrev m stop a x (qs ++ [l]) b post qs ⟨l.size + 16 + b.size, false⟩ := by
  have h' := h
  rw [chain_append] at h'
  obtain ⟨_, hlw, hbx, _⟩ := h'
  set w := a + span 16 qs with hw
  have hroom : w + 16 + l.size + 16 + b.size ≤ stop := by
    simp only [span_append, span] at hend
    omega
  rw [hl] at hlw
  obtain ⟨hsnd, hM⟩ := joinPrev_spec (by omega) hroom hstop hlw hbx
  rw [← hx] at hsnd hM
  have hM' : Merged m (joinPrev m x).1 stop w (x + 16 + b.size)
      ⟨link stop (x + 16 + b.size), lastAddr 16 0 a qs, l.used, l.size + 16 + b.size⟩ := by
    rw [hl]
    exact hM
  obtain ⟨hC, hH⟩ := merged_chain w (x + 16 + b.size) hw (by rw [hx]) hend h hM'
  have hlist : qs ++ [l] ++ b :: post = qs ++ l :: b :: post := by simp
  refine ⟨hsnd, rfl, ?_, ?_, fun z hz => ?_, ?_, hrel⟩
  · rw [hl] at hC
    exact hC
  · simp only [span_append, span] at hend ⊢
    omega
  · rw [hlist]
    simp only [addrs_append, addrs, List.mem_append, List.mem_cons] at hz ⊢
    rw [show a + span 16 qs + 16 + (l.size + 16 + b.size)
          = a + span 16 qs + 16 + l.size + 16 + b.size by omega] at hz
    tauto
  · rw [hlist]
    exact hH

theorem joinPrev_chain {m : Mem} {stop a : Nat} {pre post : List Block} {b : Block} (x : Nat)
    (ha : 0 < a) (hx : x = a + span 16 pre) (hb : b.used = false)
    (hend : a + span 16 (pre ++ b :: post) = stop) (hstop : stop < 2 ^ 32)
    (h : Chain m stop 0 a (pre ++ b :: post)) :
    ∃ qs c, JoinedPrev m stop a x pre b post qs c := by
  have hbeq : b = ⟨b.size, false⟩ := by rw [← hb]
  rcases List.eq_nil_or_concat' pre with rfl | ⟨qs, l, rfl⟩
  · -- no predecessor
    have hxa : x = a := by rw [hx]; simp [span]
    obtain ⟨hbx, _⟩ := (chain_append [] (b :: post)).mp h |>.2
    have hbx : chunkAt m x = ⟨link stop (a + 16 + b.size), 0, b.used, b.size⟩ := hxa ▸ hbx
    refine ⟨[], b, .skip (joinPrev_skip (Or.inl (by rw [hbx]))) hx hb hend h ?_⟩
    intro b' hb' hsep
    rw [hxa, List.nil_append, release_head hsep, hb', ← hbeq]
    rfl
  · have hsplit : ∀ c : Block, qs ++ [l] ++ c :: post = qs ++ l :: c :: post := by simp
    have h' := h
    rw [hsplit, chain_append] at h'
    obtain ⟨_, hlw, hbx, _⟩ := h'
    have hxw : x = a + span 16 qs + 16 + l.size := by
      rw [hx, span_append]
      simp only [span]
      omega
    rw [← hxw] at hlw hbx
    -- the release joins towards both sides, whether `l` is free or not
    have hrel : ∀ b' : Block, b'.size = b.size → Separated (qs ++ [l] ++ b' :: post) →
        release 16 x a (qs ++ [l] ++ b' :: post) = qs ++ joinFree 16 l (joinFree 16 b post) := by
      intro b' hb' hsep
      rw [hsplit] at hsep ⊢
      rw [hx, release_behind (by omega) hsep, hb', ← hbeq]
    cases hlu : l.used with
    | true =>
      have hskip : joinPrev m x = (m, x) :=
        joinPrev_skip (Or.inr (by rw [hbx]; simp only [hlw, hlu]))
      refine ⟨qs ++ [l], b, .skip hskip hx hb hend h fun b' hb' hsep => ?_⟩
      rw [hrel b' hb' hsep, joinFree_of_used hlu, List.append_assoc]
      rfl
    | false =>
      rw [hsplit] at hend h
      refine ⟨qs, _, .merge ha hxw hlu hend hstop h fun b' hb' hsep => ?_⟩
      rw [hrel b' hb' hsep, joinFree_joinFree hlu hb]

/-- **`free` refines release**: the block is marked free and joined with its free neighbours, and
    header bytes only are written. -/
theorem free_refines {R : Region} {x : Nat} {h : Heap} {bs : List Block} {b : Block}
    (hL : Layout R h bs) (hx : lookup 16 R.start bs x = some b) :
    Layout R (free h (x + 16)) (release 16 x R.start bs)
      ∧ HeadersOnly (addrs 16 R.start bs) h.mem (free h (x + 16)).mem := by
  obtain ⟨hfirst, hcover, hchain, hsep⟩ := hL
  have hpos := R.start_pos
  have hbelow : R.stop < 2 ^ 32 := R.below
  have hx_mem : x ∈ addrs 16 R.start bs := mem_addrs_iff.mpr ⟨b, hx⟩
  have hxb := lookup_bounds 16 hx
  obtain ⟨pre, post, rfl, hxa⟩ := lookup_split 16 hx
  have hptr : sub32 (x + 16) sizeofMemoryChunk = x := by
    rw [sizeofMemoryChunk, sub32_eq (by omega) (by omega)]
    omega
  -- the chunk is marked free
  set m₁ := setAllocated h.mem x false with hm₁
  have U₁ : Updates h.mem m₁ x _ := updates_setAllocated h.mem x false
  have hend₁ : R.start + span 16 (pre ++ ⟨b.size, false⟩ :: post) = R.stop := by
    rw [← hcover]
    simp only [span_append, span]
  have haddrs : addrs 16 R.start (pre ++ ⟨b.size, false⟩ :: post)
      = addrs 16 R.start (pre ++ b :: post) := by
    simp only [addrs_append, addrs]
  have hchain₁ : Chain m₁ R.stop 0 R.start (pre ++ ⟨b.size, false⟩ :: post) := by
    rw [chain_append] at hchain ⊢
    obtain ⟨hpre, hbx, hpost⟩ := hchain
    rw [← hxa] at hbx hpost ⊢
    refine ⟨chain_frame (fun y _ hy => U₁.frame y (by omega)) hpre, ?_,
      chain_frame (fun y hy _ => U₁.frame y (by omega)) hpost⟩
    rw [U₁.here, hbx]
  -- it is joined with a free predecessor, then with a free successor
  obtain ⟨qs, c, hJ⟩ := joinPrev_chain x hpos hxa rfl hend₁ hbelow hchain₁
  obtain ⟨hC₂, hH₂⟩ := joinNext_chain (joinPrev m₁ x).2 hJ.here hJ.unused hJ.cover hbelow hJ.chain
  have hfree : free h (x + 16) = { h with mem := joinNext (joinPrev m₁ x).1 (joinPrev m₁ x).2 } := by
    unfold free
    rw [hptr]
  have hsub := hJ.headers
  have hH := hJ.writes
  rw [haddrs] at hsub hH
  rw [hfree]
  refine ⟨⟨hfirst, by rw [span_release, hcover], ?_, separated_release _ _ _⟩, ?_⟩
  · rw [hJ.released b rfl hsep]
    dsimp only
    exact hC₂
  · dsimp only
    exact ((HeadersOnly.of_updates U₁ hx_mem).trans hH).trans (hH₂.mono hsub)

/-- The header that the constructor writes. -/
theorem init_head {start size : Nat} (mem : Mem) (hroom : 16 ≤ size) (hsize : size < 2 ^ 32) :
    (init mem start size).first = start
      ∧ chunkAt (init mem start size).mem start = ⟨0, 0, false, size - 16⟩ := by
  have hsub : sub32 size sizeofMemoryChunk = size - 16 := by
    rw [sizeofMemoryChunk, sub32_eq hroom hsize]
  have U₁ := updates_setAllocated mem start false
  have U₂ := updates_setPrev (setAllocated mem start false) start (v := 0) (by omega)
  have U₃ := updates_setNext (setPrev (setAllocated mem start false) start 0) start (v := 0)
    (by omega)
  have U₄ := updates_setSize (setNext (setPrev (setAllocated mem start false) start 0) start 0)
    start (v := size - 16) (by omega)
  simp only [init, hsub]
  rw [if_neg (by unfold sizeofMemoryChunk; omega)]
  exact ⟨rfl, by rw [U₄.here, U₃.here, U₂.here, U₁.here]⟩

/-- The constructor makes one free block of all the memory it is given. -/
theorem init_listed {start size : Nat} (mem : Mem) (hroom : 16 ≤ size) (hsize : size < 2 ^ 32) :
    Listed start (start + size) (init mem start size) [⟨size - 16, false⟩] := by
  obtain ⟨hfirst, hhead⟩ := @init_head start size mem hroom hsize
  refine ⟨hfirst, ?_, ?_, trivial⟩
  · simp only [span]
    omega
  · rw [hhead]
    simp only [link]
    rw [if_pos (by omega)]

/-- The constructor makes one free block of the whole region. -/
theorem init_layout (R : Region) (mem : Mem) :
    Layout R (init mem R.start R.size) [⟨R.size - 16, false⟩] := by
  have hbelow := R.below
  have hL := @init_listed R.start R.size mem R.room (by omega)
  exact ⟨hL.first, hL.cover, hL.chain, List.isChain_singleton _⟩

end SystemOS.Kernel.HeapLayout
