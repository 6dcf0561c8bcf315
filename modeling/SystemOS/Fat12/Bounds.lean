/-
  SystemOS.Fat12.Bounds — where the tables of directories end.

  The array `data` has `NUMBER_OF_BLOCKS` records of 16 bytes, which are 256 blocks of 512 bytes,
  and a table is 14 of these long.  So the tables of the blocks from 243 on run past the end, and
  those blocks are reached after 243 creations, since removal frees none.

  Main results:
    * `tableInside_block` — the tables that end in `data` are those of the blocks up to 242.
    * `contained_step`    — one step keeps the block numbers of the directories low enough.
    * `tables_inside`     — runs of such steps find tables inside the image only.
-/
import SystemOS.Fat12.Blocks

namespace SystemOS.Fat12.Bounds

open SystemOS.Lib.ByteMemory SystemOS.Lib.Strings SystemOS.Lib.Transition
open SystemOS.Fat12.FileSystem SystemOS.Fat12.Tables SystemOS.Fat12.Blocks

/-! ## §1. Tables inside the image. -/

/-- `sizeof(Block)`. -/
def sizeofBlock : Nat := 16

/-- The table at `dir` is `root_dir` or lies in the array `data`. -/
def TableInside (dir : Nat) : Prop :=
  dir = rootDir ∨ dataPos ≤ dir
    ∧ dir + ROOT_ENTRIES * sizeofDirectoryEntry ≤ dataPos + NUMBER_OF_BLOCKS * sizeofBlock

/-- The last block whose table ends in `data`. -/
def lastBlock : Nat := 242

theorem tableInside_block (b : Nat) :
    TableInside (dataPos + b * BYTES_PER_SECTOR) ↔ b ≤ lastBlock := by
  unfold TableInside dataPos rootDir BYTES_PER_SECTOR ROOT_ENTRIES sizeofDirectoryEntry
    NUMBER_OF_BLOCKS sizeofBlock lastBlock
  omega

/-- The entries of such a table are entries of the image. -/
theorem TableInside.inImage {dir e : Nat} (h : TableInside dir) (he : e ∈ table dir) :
    InImage e := by
  obtain ⟨i, hi, rfl⟩ := mem_table.mp he
  unfold TableInside rootDir dataPos ROOT_ENTRIES sizeofDirectoryEntry NUMBER_OF_BLOCKS sizeofBlock
    at h
  unfold ROOT_ENTRIES at hi
  unfold InImage sizeofDirectoryEntry sizeofFileSystem
  omega

/-- The block that a new entry at `a` refers to: when the FAT is full, the number that the entry
    holds already. -/
def nextBlock (fs : Image) (a : Nat) : UInt8 :=
  ((freeBlock fs.fat).map UInt8.ofNat).getD (first_block fs.mem a)

/-- A new directory gets a block whose table ends in `data`. -/
def BlockFits (fs : Image) : Op → Prop
  | .create path dirname _ => ∀ a, createSlot fs path = some a → InImage a →
      dirname.bytes ≠ [] → (nextBlock fs a).toNat ≤ lastBlock
  | .remove _ _ => True

/-! ## §2. The blocks of the entries. -/

variable {v : Volume} {op : Op} {a : Nat} {dirname : CString} {tm_info : tm}

theorem writeEntry_nextBlock (fs : Image) (a : Nat) (dirname : CString) (tm_info : tm) :
    first_block (writeEntry fs a dirname tm_info).mem a = nextBlock fs a := by
  unfold first_block
  rw [writeEntry_mem _ _ _ _ (by omega), if_pos rfl]
  rfl

/-- The live entries in the image refer to low blocks. -/
def Contained (m : Mem) : Prop :=
  ∀ a, IsSlot a → InImage a → live m a = true → (first_block m a).toNat ≤ lastBlock

/-- An entry other than the changed one refers to the same block. -/
theorem first_block_frame {m m' : Mem} {b : Nat} (hsame : SameOutside a m m') (ha : IsSlot a)
    (hb : IsSlot b) (hne : b ≠ a) : first_block m' b = first_block m b :=
  hsame.entry ha hb hne (by decide)

/-- **A step that gives out a low block keeps the blocks low.** -/
theorem contained_step (hv : Contained v.fs.mem) (hop : BlockFits v.fs op) :
    Contained (v.apply op).fs.mem := by
  intro b hb hin hlive
  rcases apply_cases v op with h | ⟨path, dirname, tm_info, a, rfl, hslot, h⟩ |
    ⟨path, dirname, a, -, htarget, -, h⟩ <;> rw [h] at hlive ⊢
  · exact hv b hb hin hlive
  · have ha := createSlot_isSlot hslot
    by_cases hba : b = a
    · subst hba
      rw [writeEntry_nextBlock]
      exact hop b hslot hin (writeEntry_live.mp hlive)
    · rw [live_frame writeEntry_outside ha hb hba] at hlive
      rw [first_block_frame writeEntry_outside ha hb hba]
      exact hv b hb hin hlive
  · have ha := removeTarget_isSlot htarget
    obtain ⟨hba, hlive⟩ := (erase_live_iff ha hb).mp hlive
    rw [first_block_frame erase_outside ha hb hba]
    exact hv b hb hin hlive

theorem initialized_contained (h : fatSystem.init v) : Contained v.fs.mem := by
  intro a ha hin hlive
  rw [initialized_dead h.1 ha hin] at hlive
  cases hlive

/-! ## §3. Lookups. -/

/-- A lookup that starts in a table inside the image stays in such tables. -/
theorem walk_inside {m : Mem} (hm : Contained m) {ts : List (List UInt8)}
    (hts : ∀ t ∈ ts, t ≠ [] ∧ 0 ∉ t) : ∀ {dir d : Nat}, IsTable dir → TableInside dir →
      walk m dir ts = some d → TableInside d := by
  induction ts with
  | nil =>
    intro dir d _ hdir h
    cases Option.some.inj h
    exact hdir
  | cons t ts ih =>
    intro dir d htable hdir h
    rw [walk_cons] at h
    obtain ⟨next, hchild, hwalk⟩ := Option.bind_eq_some_iff.mp h
    obtain ⟨e, hfind, rfl⟩ := Option.map_eq_some_iff.mp hchild
    have he := List.mem_of_find?_eq_some hfind
    have hlive := (named_spec (hts t List.mem_cons_self) (List.find?_some hfind)).1
    -- the entry found lies in a table inside the image, so its block is low
    refine ih (fun t ht => hts t (List.mem_cons_of_mem _ ht)) (isTable_tableOf m e) ?_ hwalk
    exact (tableInside_block _).mpr (hm e ⟨dir, htable, he⟩ (hdir.inImage he) hlive)

/-- A new directory with a higher block is in the tree, and its table runs past the end. -/
theorem not_inside (hop : ¬ BlockFits v.fs op) :
    ∃ a, IsDirectory (v.apply op).fs.mem a ∧ ¬ TableInside (tableOf (v.apply op).fs.mem a) := by
  cases op with
  | remove path dirname => exact absurd trivial hop
  | create path dirname tm_info =>
    unfold BlockFits at hop
    push Not at hop
    obtain ⟨a, hslot, hin, hname, hhigh⟩ := hop
    rw [apply_create hslot]
    refine ⟨a, created_isDirectory hslot hin hname, fun hinside => ?_⟩
    have hlow := (tableInside_block _).mp hinside
    rw [writeEntry_nextBlock] at hlow
    omega

/-- **Lookups stay inside the image** in every state of a run that gives out low blocks only; any
    other step leaves a directory of the tree whose table runs past the end. -/
theorem tables_inside (v : Volume) :
    ((fatSystem.restrict fun v op => BlockFits v.fs op).Reachable v →
        ∀ path dir, find_directory v.fs path = some dir → TableInside dir)
      ∧ ∀ op, ¬ BlockFits v.fs op →
          ∃ a, IsDirectory (v.apply op).fs.mem a
            ∧ ¬ TableInside (tableOf (v.apply op).fs.mem a) := by
  refine ⟨fun hv path dir hdir => ?_, fun op hop => not_inside hop⟩
  have hcontained : Contained v.fs.mem := by
    refine hv.invariant (I := fun v => Contained v.fs.mem) ?_ ?_
    · intro v hv
      exact initialized_contained hv
    · intro v op v' hv hstep
      rw [show v' = v.apply op from hstep.2]
      exact contained_step hv hstep.1
  rw [find_directory_eq] at hdir
  exact walk_inside hcontained (fun t ht => tokens_no_nul path t ht) (.inl rfl) (.inl rfl) hdir

/-- **After 243 rounds of creation and removal, the table of the next directory ends behind the
    image.** -/
theorem table_243_outside : ¬ ∀ v, fatSystem.Reachable v → ∀ path dir,
    find_directory v.fs path = some dir → TableInside dir := by
  intro hclaim
  have hreach : fatSystem.Reachable ((worn 243).apply (.create root nameA midnight)) :=
    .next (worn_reachable (by decide)) rfl
  have hfound : find_directory ((worn 243).apply (.create root nameA midnight)).fs pathA
      = some (dataPos + 243 * BYTES_PER_SECTOR) := by decide +kernel
  exact absurd ((tableInside_block 243).mp (hclaim _ hreach _ _ hfound)) (by decide)

end SystemOS.Fat12.Bounds
