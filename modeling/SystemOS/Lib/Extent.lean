/-
  SystemOS.Lib.Extent — a contiguous region cut into blocks, each behind a header of fixed size.

  The abstract view of a boundary-tag allocator: the region is a list of blocks laid end to end, an
  allocation takes the first free block that is large enough (and gives back what is left of it as a
  new free block when a header still fits), a release marks one block free and joins it with its
  free neighbours.  `hdr` is the header size; nothing here names a program.

  Key results:
    * `firstFit_spec`      — an allocation replaces exactly one free block of the list.
    * `span_firstFit`, `span_release`           — both operations keep the region covered.
    * `separated_firstFit`, `separated_release` — no two neighbouring blocks become free.
    * `lookup_disjoint`    — blocks at different addresses do not overlap.
    * `releaseAll_perm`    — the order of several releases does not matter.
    * `release_fits_iff`   — when a released block can be handed out again for the same size.
-/
import Mathlib.Data.List.Chain

namespace SystemOS.Lib.Extent

/-- A block: the bytes behind its header, and whether it is handed out. -/
structure Block where
  size : Nat
  used : Bool
deriving DecidableEq, Repr

variable (hdr : Nat)

/-! ## §1. Layout: spans, addresses, lookup. -/

/-- The bytes a list of blocks covers, headers included. -/
def span : List Block → Nat
  | [] => 0
  | b :: bs => hdr + b.size + span bs

/-- The address of the last block of a list laid from `a` (`p` for the empty list). -/
def lastAddr : Nat → Nat → List Block → Nat
  | p, _, [] => p
  | _, a, b :: bs => lastAddr a (a + hdr + b.size) bs

/-- The header addresses of a list of blocks laid from `a`. -/
def addrs : Nat → List Block → List Nat
  | _, [] => []
  | a, b :: bs => a :: addrs (a + hdr + b.size) bs

/-- The block whose header is at address `x`, in a list laid from `a`. -/
def lookup : Nat → List Block → Nat → Option Block
  | _, [], _ => none
  | a, b :: bs, x => if x = a then some b else lookup (a + hdr + b.size) bs x

/-- No two neighbouring blocks are both free. -/
def Separated (bs : List Block) : Prop := bs.IsChain fun b c => b.used = true ∨ c.used = true

theorem Separated.tail {b : Block} {bs : List Block} (h : Separated (b :: bs)) : Separated bs :=
  List.IsChain.tail h

theorem span_append (bs cs : List Block) : span hdr (bs ++ cs) = span hdr bs + span hdr cs := by
  induction bs with
  | nil => simp [span]
  | cons b bs ih => simp only [List.cons_append, span, ih]; omega

/-- A header address lies in the region, with the whole block behind it. -/
theorem lookup_bounds {a x : Nat} {bs : List Block} {b : Block}
    (h : lookup hdr a bs x = some b) : a ≤ x ∧ x + hdr + b.size ≤ a + span hdr bs := by
  induction bs generalizing a with
  | nil => simp [lookup] at h
  | cons c bs ih =>
    simp only [lookup] at h
    simp only [span]
    split at h
    · simp only [Option.some.injEq] at h
      subst h
      omega
    · have := ih h
      omega

/-- Lookup in a concatenation: the first part, or the second part laid behind it. -/
theorem lookup_append {a x : Nat} (bs cs : List Block) :
    lookup hdr a (bs ++ cs) x
      = (lookup hdr a bs x).or (lookup hdr (a + span hdr bs) cs x) := by
  induction bs generalizing a with
  | nil => simp [lookup, span]
  | cons b bs ih =>
    simp only [List.cons_append, lookup, span]
    split
    · rfl
    · rw [ih, show a + hdr + b.size + span hdr bs = a + (hdr + b.size + span hdr bs) by omega]

/-- A looked-up block splits the list at its address. -/
theorem lookup_split {a x : Nat} {bs : List Block} {b : Block} (h : lookup hdr a bs x = some b) :
    ∃ pre post, bs = pre ++ b :: post ∧ x = a + span hdr pre := by
  induction bs generalizing a with
  | nil => simp [lookup] at h
  | cons c bs ih =>
    simp only [lookup] at h
    split at h
    · simp only [Option.some.injEq] at h
      exact ⟨[], bs, by simp [h], by simp [span]; omega⟩
    · obtain ⟨pre, post, hbs, hx⟩ := ih h
      exact ⟨c :: pre, post, by simp [hbs], by simp only [span]; omega⟩

variable {hdr}

/-- The block right behind `pre` is found at its address. -/
theorem lookup_middle (hpos : 0 < hdr) {a : Nat} (pre post : List Block) (b : Block) :
    lookup hdr a (pre ++ b :: post) (a + span hdr pre) = some b := by
  rw [lookup_append]
  have hnone : lookup hdr a pre (a + span hdr pre) = none := by
    cases hl : lookup hdr a pre (a + span hdr pre) with
    | none => rfl
    | some c => have := lookup_bounds hdr hl; omega
  rw [hnone]
  simp [lookup]

/-- **Blocks at different addresses do not overlap**: the later header starts behind the earlier
    block. -/
theorem lookup_disjoint {a x y : Nat} {bs : List Block} {b c : Block}
    (hx : lookup hdr a bs x = some b) (hy : lookup hdr a bs y = some c) (hxy : x < y) :
    x + hdr + b.size ≤ y := by
  obtain ⟨pre, post, rfl, rfl⟩ := lookup_split hdr hx
  rw [lookup_append] at hy
  cases hpre : lookup hdr a pre y with
  | some d => have := lookup_bounds hdr hpre; omega
  | none =>
    rw [hpre, Option.none_or] at hy
    simp only [lookup] at hy
    rw [if_neg (by omega)] at hy
    exact (lookup_bounds hdr hy).1

theorem mem_addrs_iff {a x : Nat} {bs : List Block} :
    x ∈ addrs hdr a bs ↔ ∃ b, lookup hdr a bs x = some b := by
  induction bs generalizing a with
  | nil => simp [addrs, lookup]
  | cons b bs ih =>
    simp only [addrs, lookup, List.mem_cons, ih]
    by_cases hx : x = a
    · simp [hx]
    · simp [hx]

theorem addrs_append (a : Nat) (bs cs : List Block) :
    addrs hdr a (bs ++ cs) = addrs hdr a bs ++ addrs hdr (a + span hdr bs) cs := by
  induction bs generalizing a with
  | nil => simp [addrs, span]
  | cons b bs ih =>
    simp only [List.cons_append, addrs, span, ih,
      show a + hdr + b.size + span hdr bs = a + (hdr + b.size + span hdr bs) by omega]

/-- A list of blocks is no longer than the region has room for headers. -/
theorem length_le_span (bs : List Block) : hdr * bs.length ≤ span hdr bs := by
  induction bs with
  | nil => simp [span]
  | cons b bs ih => simp only [List.length_cons, span, Nat.mul_succ]; omega

/-! ## §2. First fit. -/

/-- A free block strictly larger than the request. -/
def Fits (n : Nat) (b : Block) : Prop := n < b.size ∧ b.used = false

instance (n : Nat) (b : Block) : Decidable (Fits n b) := inferInstanceAs (Decidable (_ ∧ _))

variable (hdr) in
/-- What a fitting block becomes: the allocation, and the free rest when a header and at least one
    byte fit behind it. -/
def carve (n : Nat) (b : Block) : List Block :=
  if n + hdr + 1 ≤ b.size then [⟨n, true⟩, ⟨b.size - n - hdr, false⟩] else [⟨b.size, true⟩]

variable (hdr) in
/-- First fit in a list laid from `a`: the address of the chosen block and the list afterwards. -/
def firstFit (n : Nat) : Nat → List Block → Option (Nat × List Block)
  | _, [] => none
  | a, b :: bs =>
      if Fits n b then some (a, carve hdr n b ++ bs)
      else (firstFit n (a + hdr + b.size) bs).map fun r => (r.1, b :: r.2)

/-- **What an allocation does**: the first fitting block is carved, everything else stays. -/
theorem firstFit_spec {n a x : Nat} {bs bs' : List Block}
    (h : firstFit hdr n a bs = some (x, bs')) :
    ∃ pre b post, bs = pre ++ b :: post ∧ (∀ c ∈ pre, ¬ Fits n c) ∧ Fits n b
      ∧ x = a + span hdr pre ∧ bs' = pre ++ carve hdr n b ++ post := by
  induction bs generalizing a bs' with
  | nil => simp [firstFit] at h
  | cons b bs ih =>
    simp only [firstFit] at h
    split at h
    · rename_i hb
      simp only [Option.some.injEq, Prod.mk.injEq] at h
      exact ⟨[], b, bs, rfl, by simp, hb, by simp [span]; omega, by simp [← h.2]⟩
    · rename_i hb
      simp only [Option.map_eq_some_iff, Prod.mk.injEq, Prod.exists] at h
      obtain ⟨y, cs, hrec, rfl, rfl⟩ := h
      obtain ⟨pre, c, post, rfl, hpre, hc, rfl, rfl⟩ := ih hrec
      refine ⟨b :: pre, c, post, rfl, ?_, hc, by simp only [span]; omega, rfl⟩
      intro d hd
      rcases List.mem_cons.mp hd with rfl | hd
      · exact hb
      · exact hpre d hd

theorem span_carve {n : Nat} {b : Block} (h : Fits n b) : span hdr (carve hdr n b) = hdr + b.size := by
  unfold carve
  obtain ⟨hn, _⟩ := h
  split
  · simp only [span]; omega
  · simp only [span]; omega

theorem span_firstFit {n a x : Nat} {bs bs' : List Block}
    (h : firstFit hdr n a bs = some (x, bs')) : span hdr bs' = span hdr bs := by
  obtain ⟨pre, b, post, rfl, _, hb, _, rfl⟩ := firstFit_spec h
  simp only [span_append, span_carve hb, span]
  omega

/-- Replacing a free block keeps the list separated: its neighbours were handed out. -/
theorem separated_firstFit {n a x : Nat} {bs bs' : List Block}
    (h : firstFit hdr n a bs = some (x, bs')) (hs : Separated bs) : Separated bs' := by
  obtain ⟨pre, b, post, rfl, _, hb, _, rfl⟩ := firstFit_spec h
  obtain ⟨_, hfree⟩ := hb
  unfold Separated at hs ⊢
  rw [List.isChain_append, List.isChain_cons] at hs
  obtain ⟨hpre, ⟨hhead, hpost⟩, hjoin⟩ := hs
  -- the carved block was free, so the blocks beside it are not
  have hjoin' : ∀ c ∈ pre.getLast?, c.used = true := by
    intro c hc
    have := hjoin c hc b (by simp)
    simpa [hfree] using this
  have hhead' : ∀ c ∈ post.head?, c.used = true := by
    intro c hc
    have := hhead c hc
    simpa [hfree] using this
  rw [List.append_assoc, List.isChain_append]
  refine ⟨hpre, ?_, fun c hc d _ => Or.inl (hjoin' c hc)⟩
  unfold carve
  split
  · simp only [List.cons_append, List.nil_append, List.isChain_cons, List.head?_cons]
    exact ⟨by simp, fun c hc => Or.inr (hhead' c hc), hpost⟩
  · simp only [List.cons_append, List.nil_append, List.isChain_cons]
    exact ⟨by simp, hpost⟩

/-- A handed-out block is untouched by an allocation. -/
theorem lookup_firstFit (hpos : 0 < hdr) {n a x y : Nat} {bs bs' : List Block} {c : Block}
    (h : firstFit hdr n a bs = some (x, bs')) (hy : lookup hdr a bs y = some c)
    (hc : c.used = true) : y ≠ x ∧ lookup hdr a bs' y = some c := by
  obtain ⟨pre, b, post, rfl, _, hb, rfl, rfl⟩ := firstFit_spec h
  have hne : y ≠ a + span hdr pre := by
    intro heq
    -- at `x` lay the free block that was carved
    subst heq
    rw [lookup_middle hpos] at hy
    simp only [Option.some.injEq] at hy
    rw [← hy, hb.2] at hc
    exact absurd hc (by simp)
  refine ⟨hne, ?_⟩
  rw [List.append_assoc, lookup_append]
  rw [lookup_append] at hy
  cases hpre : lookup hdr a pre y with
  | some d => rw [hpre] at hy; simpa using hy
  | none =>
    rw [hpre, Option.none_or] at hy
    simp only [lookup, if_neg hne] at hy
    -- `y` lies behind the carved block, which takes the same room as before
    have hy' := lookup_bounds hdr hy
    rw [Option.none_or, lookup_append, span_carve hb]
    have hcarve : lookup hdr (a + span hdr pre) (carve hdr n b) y = none := by
      cases hl : lookup hdr (a + span hdr pre) (carve hdr n b) y with
      | none => rfl
      | some d =>
        have := lookup_bounds hdr hl
        rw [span_carve hb] at this
        omega
    rw [hcarve, Option.none_or, ← Nat.add_assoc]
    exact hy

/-- The block an allocation hands out: at least `n` bytes, marked used. -/
theorem lookup_firstFit_self (hpos : 0 < hdr) {n a x : Nat} {bs bs' : List Block}
    (h : firstFit hdr n a bs = some (x, bs')) :
    ∃ b, lookup hdr a bs' x = some b ∧ b.used = true ∧ n ≤ b.size := by
  obtain ⟨pre, b, post, rfl, _, hb, rfl, rfl⟩ := firstFit_spec h
  obtain ⟨hn, _⟩ := hb
  unfold carve
  split
  · exact ⟨⟨n, true⟩, by rw [List.append_assoc]; exact lookup_middle hpos pre _ _, rfl, le_refl n⟩
  · exact ⟨⟨b.size, true⟩, by rw [List.append_assoc]; exact lookup_middle hpos pre _ _, rfl,
      Nat.le_of_lt hn⟩

/-! ## §3. Release. -/

variable (hdr) in
/-- Put a block in front of a list, joining it with a free first block when both are free. -/
def joinFree (b : Block) : List Block → List Block
  | [] => [b]
  | c :: cs =>
      if b.used = false ∧ c.used = false then ⟨b.size + hdr + c.size, false⟩ :: cs else b :: c :: cs

variable (hdr) in
/-- Join all neighbouring free blocks. -/
def normalize : List Block → List Block
  | [] => []
  | b :: bs => joinFree hdr b (normalize bs)

variable (hdr) in
/-- Mark the block at address `x` free. -/
def markFree (x : Nat) : Nat → List Block → List Block
  | _, [] => []
  | a, b :: bs => if x = a then { b with used := false } :: bs
      else b :: markFree x (a + hdr + b.size) bs

variable (hdr) in
/-- Release the block at address `x`: mark it free, then join neighbouring free blocks. -/
def release (x a : Nat) (bs : List Block) : List Block := normalize hdr (markFree hdr x a bs)

theorem joinFree_of_used {b : Block} (h : b.used = true) (bs : List Block) :
    joinFree hdr b bs = b :: bs := by
  cases bs with
  | nil => rfl
  | cons c cs => simp [joinFree, h]

/-- Joining three free blocks does not depend on the order. -/
theorem joinFree_joinFree {l b : Block} (hl : l.used = false) (hb : b.used = false)
    (bs : List Block) :
    joinFree hdr l (joinFree hdr b bs) = joinFree hdr ⟨l.size + hdr + b.size, false⟩ bs := by
  cases bs with
  | nil => simp [joinFree, hl, hb]
  | cons c cs =>
    cases hc : c.used
    · simp only [joinFree, hl, hb, hc, and_self, if_true]
      rw [show l.size + hdr + (b.size + hdr + c.size) = l.size + hdr + b.size + hdr + c.size by omega]
    · simp [joinFree, hl, hb, hc]

theorem head_joinFree (b : Block) (bs : List Block) :
    ∃ c cs, joinFree hdr b bs = c :: cs ∧ c.used = b.used := by
  cases bs with
  | nil => exact ⟨b, [], rfl, rfl⟩
  | cons c cs =>
    by_cases h : b.used = false ∧ c.used = false
    · exact ⟨⟨b.size + hdr + c.size, false⟩, cs, by simp [joinFree, h], by simp [h.1]⟩
    · exact ⟨b, c :: cs, by simp [joinFree, h], rfl⟩

theorem span_joinFree (b : Block) (bs : List Block) :
    span hdr (joinFree hdr b bs) = hdr + b.size + span hdr bs := by
  cases bs with
  | nil => rfl
  | cons c cs =>
    simp only [joinFree]
    split
    · simp only [span]; omega
    · rfl

theorem separated_joinFree {b : Block} {bs : List Block} (h : Separated bs) :
    Separated (joinFree hdr b bs) := by
  unfold Separated at h ⊢
  cases bs with
  | nil => simp [joinFree]
  | cons c cs =>
    rw [List.isChain_cons] at h
    obtain ⟨hhead, hcs⟩ := h
    simp only [joinFree]
    split
    · rename_i hfree
      refine List.isChain_cons.mpr ⟨fun d hd => Or.inr ?_, hcs⟩
      simpa [hfree.2] using hhead d hd
    · rename_i hnot
      refine List.isChain_cons.mpr ⟨fun d hd => ?_, List.isChain_cons.mpr ⟨hhead, hcs⟩⟩
      simp only [List.head?_cons, Option.mem_def, Option.some.injEq] at hd
      subst hd
      cases hb : b.used <;> cases hc : c.used <;> simp_all

theorem separated_normalize (bs : List Block) : Separated (normalize hdr bs) := by
  induction bs with
  | nil => exact List.isChain_nil
  | cons b bs ih => exact separated_joinFree ih

theorem span_normalize (bs : List Block) : span hdr (normalize hdr bs) = span hdr bs := by
  induction bs with
  | nil => rfl
  | cons b bs ih => simp only [normalize, span_joinFree, ih, span]

/-- A prefix that already is separated from what follows stays as it is. -/
theorem normalize_append {pre bs : List Block} (h : Separated (pre ++ normalize hdr bs)) :
    normalize hdr (pre ++ bs) = pre ++ normalize hdr bs := by
  induction pre with
  | nil => rfl
  | cons b pre ih =>
    rw [List.cons_append] at h
    rw [List.cons_append, normalize, ih h.tail]
    cases hrest : pre ++ normalize hdr bs with
    | nil => simp [joinFree, hrest]
    | cons c cs =>
      rw [hrest] at h
      unfold Separated at h
      have hbc := (List.isChain_cons.mp h).1 c (by simp)
      rw [List.cons_append, hrest, joinFree, if_neg]
      intro hboth
      obtain ⟨hb, hc⟩ := hboth
      simp [hb, hc] at hbc

theorem normalize_of_separated {bs : List Block} (h : Separated bs) : normalize hdr bs = bs := by
  have h' : Separated (bs ++ normalize hdr []) := by simpa [normalize] using h
  simpa [normalize] using normalize_append h'

theorem markFree_middle (hpos : 0 < hdr) {a : Nat} (pre post : List Block) (b : Block) :
    markFree hdr (a + span hdr pre) a (pre ++ b :: post)
      = pre ++ { b with used := false } :: post := by
  induction pre generalizing a with
  | nil => simp [markFree, span]
  | cons c pre ih =>
    simp only [List.cons_append, markFree, span]
    rw [if_neg (by omega),
        show a + (hdr + c.size + span hdr pre) = a + hdr + c.size + span hdr pre by omega, ih]

theorem span_markFree (x a : Nat) (bs : List Block) :
    span hdr (markFree hdr x a bs) = span hdr bs := by
  induction bs generalizing a with
  | nil => rfl
  | cons b bs ih =>
    simp only [markFree]
    split
    · rfl
    · simp only [span, ih]

theorem span_release (x a : Nat) (bs : List Block) : span hdr (release hdr x a bs) = span hdr bs := by
  unfold release
  rw [span_normalize, span_markFree]

theorem separated_release (x a : Nat) (bs : List Block) : Separated (release hdr x a bs) :=
  separated_normalize _

/-- **What a release does**, the first block of the list: it is joined with a free successor. -/
theorem release_head {a : Nat} {b : Block} {post : List Block}
    (hs : Separated (b :: post)) :
    release hdr a a (b :: post) = joinFree hdr ⟨b.size, false⟩ post := by
  unfold release
  rw [show markFree hdr a a (b :: post) = ⟨b.size, false⟩ :: post by simp [markFree], normalize,
      normalize_of_separated hs.tail]

/-- **What a release does**, behind a block `l`: it is joined with a free successor, then with `l`
    when `l` is free. -/
theorem release_behind (hpos : 0 < hdr) {a : Nat} {pre post : List Block} {l b : Block}
    (hs : Separated (pre ++ l :: b :: post)) :
    release hdr (a + span hdr (pre ++ [l])) a (pre ++ l :: b :: post)
      = pre ++ joinFree hdr l (joinFree hdr ⟨b.size, false⟩ post) := by
  have hsplit : pre ++ l :: b :: post = (pre ++ [l]) ++ b :: post := by simp
  unfold Separated at hs
  rw [List.isChain_append] at hs
  obtain ⟨hpre, hmid, hjoin⟩ := hs
  have hpost : Separated post := (Separated.tail hmid).tail
  have hnorm : normalize hdr (l :: ⟨b.size, false⟩ :: post)
      = joinFree hdr l (joinFree hdr ⟨b.size, false⟩ post) := by
    rw [normalize, normalize, normalize_of_separated hpost]
  unfold release
  rw [hsplit, markFree_middle hpos, List.append_assoc, List.singleton_append, normalize_append, hnorm]
  rw [hnorm]
  unfold Separated
  rw [List.isChain_append]
  -- the joined block is used exactly when `l` is, so it may stand behind `pre`
  refine ⟨hpre, hnorm ▸ separated_normalize _, fun c hc d hd => ?_⟩
  obtain ⟨e, es, heq, he⟩ := @head_joinFree hdr l (joinFree hdr ⟨b.size, false⟩ post)
  rw [heq] at hd
  simp only [List.head?_cons, Option.mem_def, Option.some.injEq] at hd
  subst hd
  rw [he]
  exact hjoin c hc l (by simp)

/-- A handed-out block is untouched by joining free blocks. -/
theorem lookup_joinFree {a y : Nat} {b c : Block} {bs : List Block}
    (hy : lookup hdr a (b :: bs) y = some c) (hc : c.used = true) :
    lookup hdr a (joinFree hdr b bs) y = some c := by
  cases bs with
  | nil => simpa [joinFree] using hy
  | cons d ds =>
    simp only [joinFree]
    split
    · -- two free blocks are joined, and `y` is the address of neither
      rename_i hfree
      simp only [lookup] at hy ⊢
      split at hy
      · simp only [Option.some.injEq] at hy
        rw [← hy, hfree.1] at hc
        exact absurd hc (by simp)
      · split at hy
        · simp only [Option.some.injEq] at hy
          rw [← hy, hfree.2] at hc
          exact absurd hc (by simp)
        · rename_i hya _
          rw [if_neg hya,
              show a + hdr + (b.size + hdr + d.size) = a + hdr + b.size + hdr + d.size by omega]
          exact hy
    · exact hy

theorem lookup_normalize {a y : Nat} {c : Block} {bs : List Block}
    (hy : lookup hdr a bs y = some c) (hc : c.used = true) :
    lookup hdr a (normalize hdr bs) y = some c := by
  induction bs generalizing a with
  | nil => simp [lookup] at hy
  | cons b bs ih =>
    refine lookup_joinFree (b := b) ?_ hc
    simp only [lookup] at hy ⊢
    split at hy
    · rename_i hya
      rw [if_pos hya]
      exact hy
    · rename_i hya
      rw [if_neg hya]
      exact ih hy

theorem lookup_markFree {x a y : Nat} {c : Block} {bs : List Block}
    (hy : lookup hdr a bs y = some c) (hne : y ≠ x) :
    lookup hdr a (markFree hdr x a bs) y = some c := by
  induction bs generalizing a with
  | nil => simp [lookup] at hy
  | cons b bs ih =>
    simp only [markFree]
    split
    · rename_i hxa
      subst hxa
      simp only [lookup, if_neg hne] at hy ⊢
      exact hy
    · simp only [lookup] at hy ⊢
      split at hy
      · rename_i hya
        rw [if_pos hya]
        exact hy
      · rename_i hya
        rw [if_neg hya]
        exact ih hy

/-- A handed-out block other than the released one is untouched by a release. -/
theorem lookup_release {x a y : Nat} {c : Block} {bs : List Block}
    (hy : lookup hdr a bs y = some c) (hc : c.used = true) (hne : y ≠ x) :
    lookup hdr a (release hdr x a bs) y = some c :=
  lookup_normalize (lookup_markFree hy hne) hc

/-! ## §4. What an operation leaves handed out. -/

/-- A handed-out block after an allocation was handed out before, or is the one returned. -/
theorem lookup_of_firstFit (hpos : 0 < hdr) {n a x y : Nat} {bs bs' : List Block} {c : Block}
    (h : firstFit hdr n a bs = some (x, bs')) (hy : lookup hdr a bs' y = some c)
    (hc : c.used = true) : y = x ∨ lookup hdr a bs y = some c := by
  obtain ⟨pre, b, post, rfl, _, hb, rfl, rfl⟩ := firstFit_spec h
  rw [List.append_assoc, lookup_append] at hy
  rw [lookup_append]
  cases hpre : lookup hdr a pre y with
  | some d =>
    rw [hpre] at hy
    exact .inr hy
  | none =>
    rw [hpre, Option.none_or, lookup_append] at hy
    rw [Option.none_or]
    cases hcarve : lookup hdr (a + span hdr pre) (carve hdr n b) y with
    | some d =>
      -- of the two blocks of the carved one, the first is handed out
      rw [hcarve, Option.some_or] at hy
      obtain rfl : d = c := Option.some.inj hy
      left
      unfold carve at hcarve
      split at hcarve
      · simp only [lookup] at hcarve
        split at hcarve
        · assumption
        · split at hcarve
          · obtain rfl := Option.some.inj hcarve
            exact absurd hc (by simp)
          · exact absurd hcarve (by simp)
      · simp only [lookup] at hcarve
        split at hcarve
        · assumption
        · exact absurd hcarve (by simp)
    | none =>
      rw [hcarve, Option.none_or, span_carve hb] at hy
      right
      have hy' := lookup_bounds hdr hy
      simp only [lookup]
      rw [if_neg (by omega), Nat.add_assoc]
      exact hy

theorem lookup_of_joinFree (hpos : 0 < hdr) {a y : Nat} {b c : Block} {bs : List Block}
    (hy : lookup hdr a (joinFree hdr b bs) y = some c) (hc : c.used = true) :
    lookup hdr a (b :: bs) y = some c := by
  cases bs with
  | nil => exact hy
  | cons d ds =>
    simp only [joinFree] at hy
    split at hy
    · simp only [lookup] at hy ⊢
      split at hy
      · obtain rfl := Option.some.inj hy
        exact absurd hc (by simp)
      · rename_i hya
        have hlo := (lookup_bounds hdr hy).1
        rw [if_neg hya, if_neg (by omega),
          show a + hdr + b.size + hdr + d.size = a + hdr + (b.size + hdr + d.size) by omega]
        exact hy
    · exact hy

/-- Joining free blocks hands nothing out. -/
theorem lookup_of_normalize (hpos : 0 < hdr) {a y : Nat} {c : Block} {bs : List Block}
    (hy : lookup hdr a (normalize hdr bs) y = some c) (hc : c.used = true) :
    lookup hdr a bs y = some c := by
  induction bs generalizing a with
  | nil => exact hy
  | cons b bs ih =>
    have hcons := lookup_of_joinFree hpos (b := b) hy hc
    simp only [lookup] at hcons ⊢
    split
    · rename_i hya
      rwa [if_pos hya] at hcons
    · rename_i hya
      rw [if_neg hya] at hcons
      exact ih hcons

theorem lookup_of_markFree {x a y : Nat} {c : Block} {bs : List Block}
    (hy : lookup hdr a (markFree hdr x a bs) y = some c) (hc : c.used = true) :
    y ≠ x ∧ lookup hdr a bs y = some c := by
  induction bs generalizing a with
  | nil => exact absurd hy (by simp [markFree, lookup])
  | cons b bs ih =>
    simp only [markFree] at hy
    split at hy
    · rename_i hxa
      subst hxa
      simp only [lookup] at hy ⊢
      split at hy
      · obtain rfl := Option.some.inj hy
        exact absurd hc (by simp)
      · rename_i hne
        rw [if_neg hne]
        exact ⟨hne, hy⟩
    · rename_i hxa
      simp only [lookup] at hy ⊢
      split at hy
      · rename_i hya
        subst hya
        rw [if_pos rfl]
        exact ⟨fun h => hxa h.symm, hy⟩
      · rename_i hya
        rw [if_neg hya]
        exact ih hy

/-- A handed-out block after a release was handed out before, and is not the one released. -/
theorem lookup_of_release (hpos : 0 < hdr) {x a y : Nat} {c : Block} {bs : List Block}
    (hy : lookup hdr a (release hdr x a bs) y = some c) (hc : c.used = true) :
    y ≠ x ∧ lookup hdr a bs y = some c :=
  lookup_of_markFree (lookup_of_normalize hpos hy hc) hc

/-- Of a region of which nothing is handed out one free block is left. -/
theorem all_free {bs : List Block} (hne : bs ≠ []) (hs : Separated bs)
    (hfree : ∀ b ∈ bs, b.used = false) : ∃ b, bs = [b] ∧ b.used = false := by
  cases bs with
  | nil => exact absurd rfl hne
  | cons b bs =>
    have hb := hfree b List.mem_cons_self
    cases bs with
    | nil => exact ⟨b, rfl, hb⟩
    | cons c cs =>
      have hc := hfree c (List.mem_cons_of_mem _ List.mem_cons_self)
      rcases (List.isChain_cons_cons.mp hs).1 with h | h
      · exact absurd h (by simp [hb])
      · exact absurd h (by simp [hc])

/-! ## §5. Releases in any order. -/

/-- Marking a handed-out block free may come before or after joining the free blocks. -/
theorem normalize_markFree {x a : Nat} {b : Block} {bs : List Block}
    (hx : lookup hdr a bs x = some b) (hb : b.used = true) :
    normalize hdr (markFree hdr x a (normalize hdr bs)) = normalize hdr (markFree hdr x a bs) := by
  induction bs generalizing a with
  | nil => rfl
  | cons c cs ih =>
    by_cases hxa : x = a
    · -- the first block, which is handed out
      subst hxa
      simp only [lookup, if_true, Option.some.injEq] at hx
      subst hx
      rw [normalize, joinFree_of_used hb]
      simp only [markFree, if_true, normalize]
      rw [normalize_of_separated (separated_normalize cs)]
    · simp only [lookup, if_neg hxa] at hx
      have hrec := ih hx
      have hkept := lookup_normalize hx hb
      simp only [markFree, if_neg hxa, normalize]
      rw [← hrec]
      cases hcs : normalize hdr cs with
      | nil =>
        rw [hcs] at hkept
        exact absurd hkept (by simp [lookup])
      | cons d ds =>
        rw [hcs] at hkept
        by_cases hjoin : c.used = false ∧ d.used = false
        · -- the free block in front is joined with the free block behind it
          obtain ⟨hc, hd⟩ := hjoin
          have hxd : x ≠ a + hdr + c.size := by
            intro heq
            subst heq
            simp only [lookup, if_true, Option.some.injEq] at hkept
            rw [hkept, hb] at hd
            exact absurd hd (by decide)
          have hboth : joinFree hdr c (d :: ds) = ⟨c.size + hdr + d.size, false⟩ :: ds := by
            simp [joinFree, hc, hd]
          rw [hboth]
          simp only [markFree, if_neg hxa, if_neg hxd, normalize]
          rw [joinFree_joinFree hc hd,
            show a + hdr + (c.size + hdr + d.size) = a + hdr + c.size + hdr + d.size by omega]
        · have hkeep : joinFree hdr c (d :: ds) = c :: d :: ds := by
            simp only [joinFree, if_neg hjoin]
          rw [hkeep, markFree, if_neg hxa, normalize]

theorem markFree_comm (x y a : Nat) (bs : List Block) :
    markFree hdr x a (markFree hdr y a bs) = markFree hdr y a (markFree hdr x a bs) := by
  induction bs generalizing a with
  | nil => rfl
  | cons b bs ih =>
    by_cases hx : x = a <;> by_cases hy : y = a <;> simp [markFree, hx, hy, ih]

/-- **Two releases may be exchanged.** -/
theorem release_comm {x y a : Nat} {b c : Block} {bs : List Block}
    (hx : lookup hdr a bs x = some b) (hb : b.used = true) (hy : lookup hdr a bs y = some c)
    (hc : c.used = true) :
    release hdr x a (release hdr y a bs) = release hdr y a (release hdr x a bs) := by
  by_cases hxy : x = y
  · rw [hxy]
  unfold release
  rw [normalize_markFree (lookup_markFree hx hxy) hb,
    normalize_markFree (lookup_markFree hy fun h => hxy h.symm) hc, markFree_comm]

variable (hdr) in
/-- Release the blocks at the addresses `xs`, one after the other. -/
def releaseAll (a : Nat) (xs : List Nat) (bs : List Block) : List Block :=
  xs.foldl (fun bs x => release hdr x a bs) bs

theorem releaseAll_cons (a x : Nat) (xs : List Nat) (bs : List Block) :
    releaseAll hdr a (x :: xs) bs = releaseAll hdr a xs (release hdr x a bs) := rfl

variable (hdr) in
/-- Every address is that of a handed-out block. -/
def HandedOut (a : Nat) (xs : List Nat) (bs : List Block) : Prop :=
  ∀ x ∈ xs, ∃ b, lookup hdr a bs x = some b ∧ b.used = true

/-- What was handed out and is not released now still is. -/
theorem HandedOut.release {a x : Nat} {xs : List Nat} {bs : List Block}
    (h : HandedOut hdr a (x :: xs) bs) (hx : x ∉ xs) :
    HandedOut hdr a xs (release hdr x a bs) := by
  intro y hy
  obtain ⟨b, hb, hused⟩ := h y (List.mem_cons_of_mem _ hy)
  refine ⟨b, lookup_release hb hused ?_, hused⟩
  intro hyx
  subst hyx
  exact hx hy

/-- **The blocks left do not depend on the order of the releases.** -/
theorem releaseAll_perm {a : Nat} {xs ys : List Nat} {bs : List Block}
    (h : xs.Perm ys) (hn : xs.Nodup) (hout : HandedOut hdr a xs bs) :
    releaseAll hdr a xs bs = releaseAll hdr a ys bs := by
  induction h generalizing bs with
  | nil => rfl
  | cons x _ ih =>
    obtain ⟨hx, hn⟩ := List.nodup_cons.mp hn
    exact ih hn (hout.release hx)
  | swap x y l =>
    obtain ⟨b, hb, hbu⟩ := hout y List.mem_cons_self
    obtain ⟨c, hc, hcu⟩ := hout x (List.mem_cons_of_mem _ List.mem_cons_self)
    rw [releaseAll_cons, releaseAll_cons, releaseAll_cons, releaseAll_cons,
      release_comm hc hcu hb hbu]
  | trans h₁ _ ih₁ ih₂ =>
    rw [ih₁ hn hout]
    apply ih₂ (h₁.nodup_iff.mp hn)
    intro x hx
    exact hout x (h₁.mem_iff.mpr hx)

/-! ## §6. Room after a release. -/

theorem firstFit_isSome_iff {n a : Nat} {bs : List Block} :
    (firstFit hdr n a bs).isSome ↔ ∃ b ∈ bs, Fits n b := by
  induction bs generalizing a with
  | nil => simp [firstFit]
  | cons b bs ih =>
    simp only [firstFit]
    by_cases hb : Fits n b
    · simp [hb]
    · simp [hb, ih]

/-- A fitting block after joining one block to a list: one that was there, or the joined one. -/
theorem joinFree_fits_iff {n : Nat} {b : Block} {bs : List Block} :
    (∃ d ∈ joinFree hdr b bs, Fits n d) ↔
      Fits n b ∨ (∃ d ∈ bs, Fits n d) ∨
        b.used = false ∧ ∃ c ∈ bs.head?, c.used = false ∧ n < b.size + hdr + c.size := by
  cases bs with
  | nil => simp [joinFree]
  | cons c cs =>
    by_cases hjoin : b.used = false ∧ c.used = false
    · obtain ⟨hb, hc⟩ := hjoin
      simp only [joinFree, hb, hc, and_self, if_true, List.exists_mem_cons_iff, List.head?_cons,
        Option.mem_def, Option.some.injEq, exists_eq_left', true_and]
      unfold Fits
      constructor
      · rintro (⟨h, _⟩ | h)
        · exact .inr (.inr h)
        · exact .inr (.inl (.inr h))
      · rintro (⟨h, _⟩ | (⟨h, _⟩ | h) | h)
        · exact .inl ⟨by simp only; omega, rfl⟩
        · exact .inl ⟨by simp only; omega, rfl⟩
        · exact .inr h
        · exact .inl ⟨h, rfl⟩
    · simp only [joinFree, if_neg hjoin, List.exists_mem_cons_iff, List.head?_cons, Option.mem_def,
        Option.some.injEq, exists_eq_left']
      constructor
      · rintro (h | h)
        · exact .inl h
        · exact .inr (.inl h)
      · rintro (h | h | ⟨hb, hc, _⟩)
        · exact .inl h
        · exact .inr h
        · exact absurd ⟨hb, hc⟩ hjoin

/-- The first block of a joined list is at least as large as the block joined. -/
theorem head_joinFree_size (b : Block) (bs : List Block) :
    ∃ c ∈ (joinFree hdr b bs).head?, c.used = b.used ∧ b.size ≤ c.size := by
  cases bs with
  | nil => exact ⟨b, rfl, rfl, le_rfl⟩
  | cons c cs =>
    by_cases hjoin : b.used = false ∧ c.used = false
    · refine ⟨⟨b.size + hdr + c.size, false⟩, by simp [joinFree, hjoin], hjoin.1.symm, ?_⟩
      simp only
      omega
    · exact ⟨b, by simp [joinFree, hjoin], rfl, le_rfl⟩

/-- **When `n` bytes fit after the release of a block that has held them**: the block has a byte
    more, a neighbour is free and is joined, or they fitted before. -/
theorem release_fits_iff (hpos : 0 < hdr) {n a : Nat} {pre post : List Block} {b : Block}
    (hs : Separated (pre ++ b :: post)) (hn : n ≤ b.size) :
    (∃ d ∈ release hdr (a + span hdr pre) a (pre ++ b :: post), Fits n d) ↔
      n < b.size ∨ (∃ l ∈ pre.getLast?, l.used = false) ∨ (∃ c ∈ post.head?, c.used = false) ∨
        ∃ d ∈ pre ++ post, Fits n d := by
  -- the released block, joined with what follows
  have htail : (∃ d ∈ joinFree hdr ⟨b.size, false⟩ post, Fits n d) ↔
      n < b.size ∨ (∃ c ∈ post.head?, c.used = false) ∨ ∃ d ∈ post, Fits n d := by
    rw [joinFree_fits_iff]
    constructor
    · rintro (⟨h, _⟩ | h | ⟨_, c, hc, hfree, _⟩)
      · exact .inl h
      · exact .inr (.inr h)
      · exact .inr (.inl ⟨c, hc, hfree⟩)
    · rintro (h | ⟨c, hc, hfree⟩ | h)
      · exact .inl ⟨h, rfl⟩
      · exact .inr (.inr ⟨rfl, c, hc, hfree, by simp only; omega⟩)
      · exact .inr (.inl h)
  rcases List.eq_nil_or_concat' pre with rfl | ⟨qs, l, rfl⟩
  · rw [List.nil_append] at hs ⊢
    rw [span, Nat.add_zero, release_head hs, htail]
    simp
  · have hsplit : qs ++ [l] ++ b :: post = qs ++ l :: b :: post := by simp
    rw [hsplit] at hs ⊢
    rw [release_behind hpos hs]
    simp only [List.mem_append, or_and_right, exists_or, List.getLast?_concat, Option.mem_def,
      Option.some.injEq, exists_eq_left', List.mem_singleton, exists_eq_left]
    rw [joinFree_fits_iff, htail]
    obtain ⟨c, hc, hcfree, hcsize⟩ : ∃ c ∈ (joinFree hdr ⟨b.size, false⟩ post).head?,
        c.used = false ∧ b.size ≤ c.size := head_joinFree_size ⟨b.size, false⟩ post
    constructor
    · rintro (h | h | (h | h | h) | ⟨h, _⟩)
      · exact .inr (.inr (.inr (.inl (.inl h))))
      · exact .inr (.inr (.inr (.inl (.inr h))))
      · exact .inl h
      · exact .inr (.inr (.inl h))
      · exact .inr (.inr (.inr (.inr h)))
      · exact .inr (.inl h)
    · rintro (h | h | h | (h | h) | h)
      · exact .inr (.inr (.inl (.inl h)))
      · -- a free predecessor takes the block over with its header
        refine .inr (.inr (.inr ⟨h, c, hc, hcfree, ?_⟩))
        omega
      · exact .inr (.inr (.inl (.inr (.inl h))))
      · exact .inl h
      · exact .inr (.inl h)
      · exact .inr (.inr (.inl (.inr (.inr h))))

end SystemOS.Lib.Extent
