/-
  SystemOS.Fat12.Ascent — while blocks are left, tables lie behind the entries that lead to them.

  Blocks are given out in order and never given back, and a directory takes the first empty entry of
  its parent's table.  So an entry never lies behind the table of its own block, as long as the
  blocks given out have tables inside the image (`Roomy`).

  Main results:
    * `Ascending.walk` — a lookup never goes back.
    * `roomy_ascending` — the invariant of the runs whose creations all find such a block.
-/
import SystemOS.Fat12.Bounds

namespace SystemOS.Fat12.Ascent

open SystemOS.Lib.ByteMemory SystemOS.Lib.Strings SystemOS.Lib.Transition
open SystemOS.Fat12.FileSystem SystemOS.Fat12.Tables SystemOS.Fat12.Blocks SystemOS.Fat12.Bounds

/-! ## §1. The front of the FAT. -/

/-- The FAT entries below `n` are marked and the others are free. -/
structure Front (fat : Nat → Nat) (n : Nat) : Prop where
  le : n ≤ NUMBER_OF_BLOCKS
  marked : ∀ i < n, fat i ≠ 0x000
  free : ∀ i, n ≤ i → i < NUMBER_OF_BLOCKS → fat i = 0x000

variable {fat : Nat → Nat} {n : Nat} {fs : Image} {m m' : Mem} {a x dir d : Nat}
  {path dirname : CString} {tm_info : tm} {v : Volume} {op : Op}

theorem Front.freeBlock_lt (h : Front fat n) (hn : n < NUMBER_OF_BLOCKS) :
    freeBlock fat = some n := by
  obtain ⟨i, hi, hblock⟩ := freeBlock_le hn (h.free n (Nat.le_refl n) hn)
  have hge : ¬ i < n := fun hlt => h.marked i hlt (freeBlock_some hblock).2.1
  rw [hblock, show i = n by omega]

theorem Front.freeBlock_full (h : Front fat NUMBER_OF_BLOCKS) : freeBlock fat = none :=
  freeBlock_eq_none_iff.mpr h.marked

theorem Front.update (h : Front fat n) (hn : n < NUMBER_OF_BLOCKS) :
    Front (Function.update fat n 0xFFF) (n + 1) := by
  constructor
  · exact hn
  · intro i hi
    rw [Function.update_apply]
    split
    · decide
    · exact h.marked i (by omega)
  · intro i hi hlt
    rw [Function.update_of_ne (by omega)]
    exact h.free i (by omega) hlt

/-- A creation moves the front by one, or it stands at the end already. -/
theorem Front.writeEntry (h : Front fs.fat n) :
    Front (writeEntry fs a dirname tm_info).fat (min (n + 1) NUMBER_OF_BLOCKS) := by
  have hle := h.le
  by_cases hn : n < NUMBER_OF_BLOCKS
  · have hblock := h.freeBlock_lt hn
    rw [Nat.min_eq_left hn, writeEntry_fat_eq, hblock]
    exact h.update hn
  · have hn' : n = NUMBER_OF_BLOCKS := by omega
    subst hn'
    rw [Nat.min_eq_right (Nat.le_succ _), writeEntry_fat_eq, h.freeBlock_full]
    exact h

/-! ## §2. Where the entries lie. -/

/-- The entry `x` lies in or before the blocks given out, refers to one of them, and does not lie
    behind its table. -/
structure Placed (m : Mem) (n x : Nat) : Prop where
  low : (first_block m x).toNat < n
  below : x + sizeofDirectoryEntry ≤ dataPos + n * BYTES_PER_SECTOR
  ascends : x ≤ tableOf m x

theorem Placed.frame (h : Placed m n x) (hsame : SameOutside a m m') (ha : IsSlot a)
    (hx : IsSlot x) (hne : x ≠ a) : Placed m' n x := by
  constructor
  · rw [first_block_frame hsame ha hx hne]
    exact h.low
  · exact h.below
  · rw [tableOf_frame hsame ha hx hne]
    exact h.ascends

theorem Placed.mono (h : Placed m n x) {k : Nat} (hk : n ≤ k) : Placed m k x := by
  have hbelow := h.below
  have hmul := Nat.mul_le_mul_right BYTES_PER_SECTOR hk
  exact ⟨Nat.lt_of_lt_of_le h.low hk, by omega, h.ascends⟩

/-- Blocks are given out in order, and the live entries lie below the tables of their blocks. -/
structure Ascending (fs : Image) (n : Nat) : Prop where
  front : Front fs.fat n
  contained : Contained fs.mem
  placed : ∀ x, IsSlot x → InImage x → live fs.mem x = true → Placed fs.mem n x

/-- The entries in front of the first empty one are live. -/
theorem emptyEntry_spec (h : emptyEntry m dir = some a) :
    a ∈ table dir ∧ ∀ b ∈ table dir, b < a → live m b = true := by
  obtain ⟨_, before, behind, hl, hbefore⟩ := List.find?_eq_some_iff_append.mp h
  refine ⟨List.mem_of_find?_eq_some h, fun b hb hlt => ?_⟩
  have hsorted := table_sorted dir
  rw [hl, List.pairwise_append, List.pairwise_cons] at hsorted
  rw [hl, List.mem_append, List.mem_cons] at hb
  rcases hb with hb | rfl | hb
  · have hnul := hbefore b hb
    unfold live
    simpa using hnul
  · omega
  · have := hsorted.2.1.1 b hb
    omega

/-- It is the first one of the table, or there is a live one before it. -/
theorem emptyEntry_previous (h : emptyEntry m dir = some a) :
    a = dir ∨ ∃ b ∈ table dir, live m b = true ∧ a = b + sizeofDirectoryEntry := by
  obtain ⟨ha, hlive⟩ := emptyEntry_spec h
  obtain ⟨i, hi, rfl⟩ := mem_table.mp ha
  cases i with
  | zero => exact .inl (by omega)
  | succ i =>
    right
    have hb : dir + sizeofDirectoryEntry * i ∈ table dir := mem_table.mpr ⟨i, by omega, rfl⟩
    refine ⟨_, hb, hlive _ hb ?_, by rw [Nat.mul_succ, Nat.add_assoc]⟩
    unfold sizeofDirectoryEntry
    omega

/-! ## §3. Lookups. -/

theorem mem_table_ge (h : a ∈ table dir) : dir ≤ a := by
  obtain ⟨i, _, rfl⟩ := mem_table.mp h
  exact Nat.le_add_right _ _

/-- **A lookup never goes back**, and arrives in a block given out. -/
theorem Ascending.walk (h : Ascending fs n) {ts : List (List UInt8)}
    (hts : ∀ t ∈ ts, t ≠ [] ∧ 0 ∉ t) : IsTable d → TableInside d →
      FileSystem.walk fs.mem d ts = some dir →
      d ≤ dir ∧ (dir = d ∨ dir + BYTES_PER_SECTOR ≤ dataPos + n * BYTES_PER_SECTOR) := by
  induction ts generalizing d with
  | nil =>
    intro _ _ hwalk
    cases Option.some.inj hwalk
    exact ⟨Nat.le_refl _, .inl rfl⟩
  | cons t ts ih =>
    intro hd hinside hwalk
    rw [walk_cons] at hwalk
    obtain ⟨next, hchild, hwalk⟩ := Option.bind_eq_some_iff.mp hwalk
    obtain ⟨e, hfind, rfl⟩ := Option.map_eq_some_iff.mp hchild
    have he := List.mem_of_find?_eq_some hfind
    have hin : InImage e := hinside.inImage he
    have hlive := (named_spec (hts t List.mem_cons_self) (List.find?_some hfind)).1
    have hplaced := h.placed e ⟨d, hd, he⟩ hin hlive
    have hlow : TableInside (tableOf fs.mem e) :=
      (tableInside_block _).mpr (h.contained e ⟨d, hd, he⟩ hin hlive)
    obtain ⟨hup, hgiven⟩ := ih (fun t ht => hts t (List.mem_cons_of_mem _ ht))
      (isTable_tableOf fs.mem e) hlow hwalk
    have hde := mem_table_ge he
    have hee := hplaced.ascends
    refine ⟨by omega, .inr ?_⟩
    rcases hgiven with heq | hgiven
    · -- the table of `e` itself, which has a block below `n`
      rw [heq]
      have hmul := Nat.mul_le_mul_right BYTES_PER_SECTOR (Nat.succ_le_of_lt hplaced.low)
      unfold tableOf
      rw [Nat.succ_mul] at hmul
      omega
    · exact hgiven

/-- A directory that is found lies inside the image. -/
theorem Ascending.inside (h : Ascending fs n) (hdir : find_directory fs path = some dir) :
    TableInside dir := by
  rw [find_directory_eq] at hdir
  exact walk_inside h.contained (fun t ht => tokens_no_nul path t ht) (.inl rfl) (.inl rfl) hdir

/-- The entry that a creation writes lies inside the image, at most one entry behind the blocks
    given out. -/
theorem Ascending.slot (h : Ascending fs n) (hslot : createSlot fs path = some a) :
    InImage a ∧ a ≤ dataPos + n * BYTES_PER_SECTOR := by
  rw [createSlot_eq] at hslot
  obtain ⟨dir, hdir, hempty⟩ := Option.bind_eq_some_iff.mp hslot
  have hinside := h.inside hdir
  have htable := find_directory_isTable hdir
  refine ⟨hinside.inImage (emptyEntry_spec hempty).1, ?_⟩
  rcases emptyEntry_previous hempty with rfl | ⟨b, hb, hlive, rfl⟩
  · rw [find_directory_eq] at hdir
    rcases (h.walk (fun t ht => tokens_no_nul path t ht) (.inl rfl) (.inl rfl) hdir).2 with
      heq | hgiven
    · rw [heq]
      unfold rootDir dataPos
      omega
    · omega
  · exact (h.placed b ⟨dir, htable, hb⟩ (hinside.inImage hb) hlive).below

/-! ## §4. Runs. -/

/-- A creation that writes a name finds a free block whose table ends in the image. -/
def Roomy (fs : Image) : Op → Prop
  | .create path dirname _ => ∀ a, createSlot fs path = some a → dirname.bytes ≠ [] →
      ∃ i ≤ lastBlock, fs.fat i = 0x000
  | .remove _ _ => True

theorem Roomy.front (hop : Roomy fs (.create path dirname tm_info)) (h : Front fs.fat n)
    (hslot : createSlot fs path = some a) (hname : dirname.bytes ≠ []) : n ≤ lastBlock := by
  obtain ⟨i, hi, hfree⟩ := hop a hslot hname
  by_contra hn
  exact h.marked i (by omega) hfree

/-- The block of the new directory. -/
theorem Roomy.nextBlock (hop : Roomy fs (.create path dirname tm_info)) (h : Front fs.fat n)
    (hslot : createSlot fs path = some a) (hname : dirname.bytes ≠ []) :
    (Bounds.nextBlock fs a).toNat = n := by
  have hn := hop.front h hslot hname
  unfold lastBlock at hn
  unfold Bounds.nextBlock
  rw [h.freeBlock_lt (by unfold NUMBER_OF_BLOCKS; omega), Option.map_some, Option.getD_some,
    UInt8.toNat_ofNat']
  omega

theorem Roomy.blockFits (hop : Roomy fs op) (h : Front fs.fat n) : BlockFits fs op := by
  cases op with
  | remove path dirname => trivial
  | create path dirname tm_info =>
    intro a hslot _ hname
    rw [hop.nextBlock h hslot hname]
    exact hop.front h hslot hname

/-- The new entry. -/
theorem placed_create (h : Ascending fs n) (hop : Roomy fs (.create path dirname tm_info))
    (hslot : createSlot fs path = some a) (hname : dirname.bytes ≠ []) :
    Placed (writeEntry fs a dirname tm_info).mem (min (n + 1) NUMBER_OF_BLOCKS) a := by
  have hn := hop.front h.front hslot hname
  have hnext := hop.nextBlock h.front hslot hname
  have ha := (h.slot hslot).2
  unfold lastBlock at hn
  rw [Nat.min_eq_left (by unfold NUMBER_OF_BLOCKS; omega)]
  constructor
  · rw [writeEntry_nextBlock, hnext]
    exact Nat.lt_succ_self n
  · rw [Nat.succ_mul]
    unfold sizeofDirectoryEntry BYTES_PER_SECTOR at *
    omega
  · unfold tableOf
    rw [writeEntry_nextBlock, hnext]
    exact ha

/-- **A step that finds room keeps the entries below their tables.** -/
theorem ascending_step (h : Ascending v.fs n) (hop : Roomy v.fs op) :
    ∃ k, Ascending (v.apply op).fs k := by
  have hcontained := contained_step h.contained (hop.blockFits h.front)
  rcases apply_cases v op with heq | ⟨path, dirname, tm_info, a, rfl, hslot, heq⟩ |
    ⟨path, dirname, a, -, htarget, -, heq⟩ <;> rw [heq] at hcontained ⊢
  · exact ⟨n, h⟩
  · refine ⟨min (n + 1) NUMBER_OF_BLOCKS, h.front.writeEntry, hcontained, fun x hx hin hlive => ?_⟩
    have ha := createSlot_isSlot hslot
    by_cases hxa : x = a
    · subst hxa
      exact placed_create h hop hslot (writeEntry_live.mp hlive)
    · rw [live_frame writeEntry_outside ha hx hxa] at hlive
      have hle := h.front.le
      exact ((h.placed x hx hin hlive).frame writeEntry_outside ha hx hxa).mono (by omega)
  · refine ⟨n, h.front, hcontained, fun x hx hin hlive => ?_⟩
    have ha := removeTarget_isSlot htarget
    obtain ⟨hxa, hlive⟩ := (erase_live_iff ha hx).mp hlive
    exact (h.placed x hx hin hlive).frame erase_outside ha hx hxa

theorem initialized_ascending (h : fatSystem.init v) : Ascending v.fs 0 := by
  constructor
  · exact ⟨Nat.zero_le _, nofun, fun i _ _ => h.1.1 i⟩
  · exact initialized_contained h
  · intro x hx hin hlive
    rw [initialized_dead h.1 hx hin] at hlive
    cases hlive

/-- **The entries lie below their tables** in every image that a run of roomy steps reaches. -/
theorem roomy_ascending (h : (fatSystem.restrict fun v op => Roomy v.fs op).Reachable v) :
    ∃ n, Ascending v.fs n := by
  refine h.invariant (I := fun v => ∃ n, Ascending v.fs n) ?_ ?_
  · intro v hv
    exact ⟨0, initialized_ascending hv⟩
  · intro v op v' hv hstep
    obtain ⟨n, hn⟩ := hv
    rw [show v' = v.apply op from hstep.2]
    exact ascending_step hn hstep.1

end SystemOS.Fat12.Ascent
