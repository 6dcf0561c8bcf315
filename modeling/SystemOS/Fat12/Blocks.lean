/-
  SystemOS.Fat12.Blocks — the block numbers recorded in the directory entries.

  `create_directory` marks the first free FAT entry and stores its index in byte 0 of the two-byte
  field `first_block_number`, and removal frees nothing.  So block numbers are right as long as
  one of the first 256 FAT entries is free, and never again.

  Main results:
    * `recorded_step`   — one step keeps the recorded blocks right while an index fits into a byte.
    * `blocks_recorded` — runs of such steps keep the blocks of the tree apart and recorded, and
      each other step records a wrong block.
    * `block_256_lost`  — after 256 rounds of creation and removal, the next creation does.
-/
import SystemOS.Fat12.Tables

namespace SystemOS.Fat12.Blocks

open SystemOS.Lib.ByteMemory SystemOS.Lib.Strings SystemOS.Lib.Transition
open SystemOS.Fat12.FileSystem SystemOS.Fat12.Tables

/-! ## §1. The tree and its blocks. -/

/-- Live entries of the root directory, and of the tables of directories in the tree. -/
inductive InTree (m : Mem) : Nat → Prop
  | top {a : Nat} : a ∈ table rootDir → live m a = true → InTree m a
  | nested {d a : Nat} : InTree m d → file_attributes m d = 0x10 → a ∈ table (tableOf m d) →
      live m a = true → InTree m a

/-- The number in the two bytes of `first_block_number`. -/
def blockNumber (m : Mem) (a : Nat) : Nat := (m (a + 20)).toNat + 256 * (m (a + 21)).toNat

/-- A directory of the tree, with its entry in the image. -/
def IsDirectory (m : Mem) (a : Nat) : Prop :=
  InTree m a ∧ file_attributes m a = 0x10 ∧ InImage a

/-- Different directories have different blocks, and the block of each is the index of the FAT
    entry that its creation has marked. -/
structure BlocksOk (v : Volume) : Prop where
  distinct : ∀ a b, IsDirectory v.fs.mem a → IsDirectory v.fs.mem b → a ≠ b →
    blockNumber v.fs.mem a ≠ blockNumber v.fs.mem b
  marked : ∀ a, IsDirectory v.fs.mem a → ∃ i < NUMBER_OF_BLOCKS,
    v.marks a = some i ∧ v.fs.fat i = 0xFFF ∧ blockNumber v.fs.mem a = i

/-- The index to be recorded fits into a byte. -/
def Recordable (fs : Image) : Op → Prop
  | .create path dirname _ => ∀ a, createSlot fs path = some a → InImage a →
      dirname.bytes ≠ [] → ∃ i < 256, fs.fat i = 0x000
  | .remove _ _ => True

/-! ## §2. The scan of the FAT. -/

theorem freeBlockFrom_some {fat : Nat → Nat} {n i j : Nat} (h : freeBlockFrom fat n i = some j) :
    j < i + n ∧ fat j = 0x000 ∧ ∀ k, i ≤ k → k < j → fat k ≠ 0x000 := by
  induction n generalizing i with
  | zero => cases h
  | succ n ih =>
    unfold freeBlockFrom at h
    split at h
    · next hi =>
      cases h
      exact ⟨by omega, hi, fun k _ _ => by omega⟩
    · next hi =>
      obtain ⟨hj, hfree, hbefore⟩ := ih h
      refine ⟨by omega, hfree, fun k hk hkj => ?_⟩
      rcases Nat.eq_or_lt_of_le hk with rfl | hk
      · exact hi
      · exact hbefore k hk hkj

theorem freeBlockFrom_none {fat : Nat → Nat} {n i : Nat} (h : freeBlockFrom fat n i = none) :
    ∀ k, i ≤ k → k < i + n → fat k ≠ 0x000 := by
  induction n generalizing i with
  | zero => intro k _ _; omega
  | succ n ih =>
    unfold freeBlockFrom at h
    split at h
    · cases h
    · next hi =>
      intro k hk hkn
      rcases Nat.eq_or_lt_of_le hk with rfl | hk
      · exact hi
      · exact ih h k hk (by omega)

theorem freeBlock_some {fat : Nat → Nat} {i : Nat} (h : freeBlock fat = some i) :
    i < NUMBER_OF_BLOCKS ∧ fat i = 0x000 ∧ ∀ k < i, fat k ≠ 0x000 := by
  obtain ⟨hi, hfree, hbefore⟩ := freeBlockFrom_some h
  exact ⟨by omega, hfree, fun k hk => hbefore k (Nat.zero_le k) hk⟩

theorem freeBlock_eq_none_iff {fat : Nat → Nat} :
    freeBlock fat = none ↔ ∀ i < NUMBER_OF_BLOCKS, fat i ≠ 0x000 := by
  constructor
  · intro h i hi
    exact freeBlockFrom_none h i (Nat.zero_le i) (by omega)
  · intro h
    cases hblock : freeBlock fat with
    | none => rfl
    | some i =>
      obtain ⟨hi, hfree, -⟩ := freeBlock_some hblock
      exact absurd hfree (h i hi)

/-- The scan ends at or before a free entry. -/
theorem freeBlock_le {fat : Nat → Nat} {k : Nat} (hk : k < NUMBER_OF_BLOCKS)
    (hfree : fat k = 0x000) : ∃ i ≤ k, freeBlock fat = some i := by
  cases h : freeBlock fat with
  | none => exact absurd hfree (freeBlock_eq_none_iff.mp h k hk)
  | some i =>
    refine ⟨i, ?_, rfl⟩
    by_contra hcon
    exact (freeBlock_some h).2.2 k (by omega) hfree

/-! ## §3. Recorded blocks. -/

variable {v : Volume} {op : Op} {a b : Nat} {dirname : CString} {tm_info : tm}

/-- The entry holds the index that it was created with, which is marked in the FAT. -/
def RecordedAt (v : Volume) (a i : Nat) : Prop :=
  i < 256 ∧ v.marks a = some i ∧ v.fs.fat i = 0xFFF ∧ (first_block v.fs.mem a).toNat = i

/-- Every live entry in the image has recorded its block, and no two the same. -/
structure Recorded (v : Volume) : Prop where
  marked : ∀ a, IsSlot a → InImage a → live v.fs.mem a = true → ∃ i, RecordedAt v a i
  apart : ∀ a b, IsSlot a → IsSlot b → InImage a → InImage b → live v.fs.mem a = true →
    live v.fs.mem b = true → a ≠ b → v.marks a ≠ v.marks b

/-- The first free FAT entry is marked, if there is one. -/
theorem writeEntry_fat_eq (fs : Image) (a : Nat) (dirname : CString) (tm_info : tm) :
    (writeEntry fs a dirname tm_info).fat
      = (freeBlock fs.fat).elim fs.fat fun i => Function.update fs.fat i 0xFFF := by
  unfold writeEntry
  cases freeBlock fs.fat <;> rfl

theorem writeEntry_fat (v : Volume) (a : Nat) (dirname : CString) (tm_info : tm) :
    (writeEntry v.fs a dirname tm_info).fat = v.fs.fat
      ∨ ∃ i, freeBlock v.fs.fat = some i
        ∧ (writeEntry v.fs a dirname tm_info).fat = Function.update v.fs.fat i 0xFFF := by
  rw [writeEntry_fat_eq]
  cases freeBlock v.fs.fat with
  | none => exact .inl rfl
  | some i => exact .inr ⟨i, rfl, rfl⟩

/-- Marked FAT entries stay marked. -/
theorem writeEntry_marked {i : Nat} (h : v.fs.fat i = 0xFFF) :
    (writeEntry v.fs a dirname tm_info).fat i = 0xFFF := by
  rcases writeEntry_fat v a dirname tm_info with heq | ⟨j, -, heq⟩ <;> rw [heq]
  · exact h
  · rw [Function.update_apply]
    split
    · rfl
    · exact h

/-- A record stays when the change is elsewhere and marked FAT entries stay marked. -/
theorem RecordedAt.frame {v v' : Volume} {i : Nat} (h : RecordedAt v b i) (ha : IsSlot a)
    (hb : IsSlot b) (hne : b ≠ a) (hsame : SameOutside a v.fs.mem v'.fs.mem)
    (hmarks : ∃ f, v'.marks = Function.update v.marks a f)
    (hfat : v.fs.fat i = 0xFFF → v'.fs.fat i = 0xFFF) : RecordedAt v' b i := by
  obtain ⟨f, hmarks⟩ := hmarks
  obtain ⟨hi, hmark, hmarked, hblock⟩ := h
  refine ⟨hi, ?_, hfat hmarked, ?_⟩
  · rw [hmarks, Function.update_of_ne hne]
    exact hmark
  · unfold first_block
    rw [hsame.entry ha hb hne (by decide)]
    exact hblock

/-- The index that a new live entry gets is that of a FAT entry which was free. -/
theorem new_index {path : CString} (hop : Recordable v.fs (.create path dirname tm_info))
    (hslot : createSlot v.fs path = some a) (hin : InImage a) (hname : dirname.bytes ≠ []) :
    ∃ i < 256, freeBlock v.fs.fat = some i ∧ v.fs.fat i = 0x000 := by
  obtain ⟨k, hk, hfree⟩ := hop a hslot hin hname
  obtain ⟨i, hi, hblock⟩ := freeBlock_le (by unfold NUMBER_OF_BLOCKS; omega) hfree
  exact ⟨i, by omega, hblock, (freeBlock_some hblock).2.1⟩

/-- The record that creation makes. -/
theorem writeEntry_recorded {i : Nat} (hi : i < 256) (h : freeBlock v.fs.fat = some i) :
    RecordedAt ⟨writeEntry v.fs a dirname tm_info,
      Function.update v.marks a (freeBlock v.fs.fat)⟩ a i := by
  refine ⟨hi, ?_, ?_, ?_⟩
  · rw [← h]
    exact Function.update_self a (freeBlock v.fs.fat) v.marks
  · unfold writeEntry
    rw [h]
    exact Function.update_self i 0xFFF v.fs.fat
  · show (first_block (writeEntry v.fs a dirname tm_info).mem a).toNat = i
    rw [writeEntry_first_block h, UInt8.toNat_ofNat_of_lt' hi]

theorem recorded_create {path : CString} (hv : Recorded v)
    (hop : Recordable v.fs (.create path dirname tm_info))
    (hslot : createSlot v.fs path = some a) :
    Recorded ⟨writeEntry v.fs a dirname tm_info,
      Function.update v.marks a (freeBlock v.fs.fat)⟩ := by
  have ha := createSlot_isSlot hslot
  have hother : ∀ b, IsSlot b → b ≠ a →
      live (writeEntry v.fs a dirname tm_info).mem b = live v.fs.mem b :=
    fun b hb hne => live_frame writeEntry_outside ha hb hne
  -- no other entry has the new index, since its FAT entry was free
  have hfresh : InImage a → live (writeEntry v.fs a dirname tm_info).mem a = true →
      ∀ b, IsSlot b → InImage b → live v.fs.mem b = true →
        v.marks b ≠ freeBlock v.fs.fat := by
    intro hin hlive b hb hbin hblive
    obtain ⟨i, -, hblock, hfree⟩ := new_index hop hslot hin (writeEntry_live.mp hlive)
    obtain ⟨j, -, hmark, hmarked, -⟩ := hv.marked b hb hbin hblive
    rw [hmark, hblock]
    intro heq
    rw [Option.some.inj heq, hfree] at hmarked
    cases hmarked
  constructor
  · intro b hb hbin hblive
    by_cases hne : b = a
    · subst hne
      obtain ⟨i, hi, hblock, -⟩ := new_index hop hslot hbin (writeEntry_live.mp hblive)
      exact ⟨i, writeEntry_recorded hi hblock⟩
    · rw [show live _ b = live v.fs.mem b from hother b hb hne] at hblive
      obtain ⟨i, hrec⟩ := hv.marked b hb hbin hblive
      exact ⟨i, hrec.frame ha hb hne writeEntry_outside ⟨_, rfl⟩ writeEntry_marked⟩
  · intro b c hb hc hbin hcin hblive hclive hne
    show Function.update v.marks a _ b ≠ Function.update v.marks a _ c
    by_cases hba : b = a
    · subst hba
      have hcb : c ≠ b := hne.symm
      rw [Function.update_self, Function.update_of_ne hcb]
      rw [show live _ c = live v.fs.mem c from hother c hc hcb] at hclive
      exact (hfresh hbin hblive c hc hcin hclive).symm
    · rw [show live _ b = live v.fs.mem b from hother b hb hba] at hblive
      by_cases hca : c = a
      · subst hca
        rw [Function.update_self, Function.update_of_ne hba]
        exact hfresh hcin hclive b hb hbin hblive
      · rw [show live _ c = live v.fs.mem c from hother c hc hca] at hclive
        rw [Function.update_of_ne hba, Function.update_of_ne hca]
        exact hv.apart b c hb hc hbin hcin hblive hclive hne

theorem recorded_remove (hv : Recorded v) (ha : IsSlot a) :
    Recorded ⟨erase v.fs a, Function.update v.marks a none⟩ := by
  constructor
  · intro b hb hbin hblive
    obtain ⟨hne, hblive⟩ := (erase_live_iff ha hb).mp hblive
    obtain ⟨i, hrec⟩ := hv.marked b hb hbin hblive
    exact ⟨i, hrec.frame ha hb hne erase_outside ⟨_, rfl⟩ id⟩
  · intro b c hb hc hbin hcin hblive hclive hne
    obtain ⟨hba, hblive⟩ := (erase_live_iff ha hb).mp hblive
    obtain ⟨hca, hclive⟩ := (erase_live_iff ha hc).mp hclive
    show Function.update v.marks a none b ≠ Function.update v.marks a none c
    rw [Function.update_of_ne hba, Function.update_of_ne hca]
    exact hv.apart b c hb hc hbin hcin hblive hclive hne

/-- **A step that records a one-byte index keeps the recorded blocks right.** -/
theorem recorded_step (hv : Recorded v) (hop : Recordable v.fs op) : Recorded (v.apply op) := by
  rcases apply_cases v op with h | ⟨path, dirname, tm_info, a, rfl, hslot, h⟩ |
    ⟨path, dirname, a, -, htarget, -, h⟩ <;> rw [h]
  · exact hv
  · exact recorded_create hv hop hslot
  · exact recorded_remove hv (removeTarget_isSlot htarget)

theorem initialized_recorded (h : fatSystem.init v) : Recorded v := by
  have hdead : ∀ a, IsSlot a → InImage a → ¬ live v.fs.mem a = true := by
    intro a ha hin
    rw [initialized_dead h.1 ha hin]
    decide
  exact ⟨fun a ha hin hlive => absurd hlive (hdead a ha hin),
    fun a _ ha _ hin _ hlive _ _ => absurd hlive (hdead a ha hin)⟩

/-! ## §4. The blocks of the tree. -/

theorem InTree.slot {m : Mem} (h : InTree m a) : IsSlot a ∧ live m a = true := by
  cases h with
  | top ha hlive => exact ⟨⟨rootDir, .inl rfl, ha⟩, hlive⟩
  | nested _ _ ha hlive => exact ⟨⟨_, isTable_tableOf m _, ha⟩, hlive⟩

/-- The upper byte of a block number is 0. -/
theorem blockNumber_eq {m : Mem} (hm : Terminated m) (ha : IsSlot a) (hin : InImage a) :
    blockNumber m a = (first_block m a).toNat := by
  unfold blockNumber first_block
  rw [(hm a ha hin).2]
  rfl

theorem Recorded.blocksOk (hv : Recorded v) (hm : Terminated v.fs.mem) : BlocksOk v := by
  have hmark : ∀ a, IsDirectory v.fs.mem a → ∃ i < NUMBER_OF_BLOCKS,
      v.marks a = some i ∧ v.fs.fat i = 0xFFF ∧ blockNumber v.fs.mem a = i := by
    intro a hdir
    obtain ⟨htree, -, hin⟩ := hdir
    obtain ⟨i, hi, hmark, hmarked, hblock⟩ := hv.marked a htree.slot.1 hin htree.slot.2
    refine ⟨i, by unfold NUMBER_OF_BLOCKS; omega, hmark, hmarked, ?_⟩
    rw [blockNumber_eq hm htree.slot.1 hin]
    exact hblock
  refine ⟨fun a b ha hb hne heq => ?_, hmark⟩
  obtain ⟨i, -, hi, -, hai⟩ := hmark a ha
  obtain ⟨j, -, hj, -, hbj⟩ := hmark b hb
  refine hv.apart a b ha.1.slot.1 hb.1.slot.1 ha.2.2 hb.2.2 ha.1.slot.2 hb.1.slot.2 hne ?_
  rw [hi, hj, ← hai, ← hbj, heq]

/-- What a lookup finds is live, and a directory. -/
theorem named_spec {m : Mem} {token : List UInt8} (htoken : token ≠ [] ∧ 0 ∉ token)
    (h : isNamed m token a = true) : live m a = true ∧ file_attributes m a = 0x10 := by
  unfold isNamed at h
  rw [Bool.and_eq_true] at h
  refine ⟨?_, eq_of_beq h.2⟩
  by_contra hdead
  have h0 : m a = 0 := live_eq_false_iff.mp (Bool.eq_false_iff.mpr hdead)
  rw [strEq_of_nul htoken.2 htoken.1 h0] at h
  cases h.1

/-- The directory that a lookup arrives at belongs to an entry of the tree, or is the root. -/
theorem walk_inTree {m : Mem} {ts : List (List UInt8)} (hts : ∀ t ∈ ts, t ≠ [] ∧ 0 ∉ t) :
    ∀ {dir d : Nat}, walk m dir ts = some d →
      (dir = rootDir ∨ ∃ e, InTree m e ∧ file_attributes m e = 0x10 ∧ dir = tableOf m e) →
      d = rootDir ∨ ∃ e, InTree m e ∧ file_attributes m e = 0x10 ∧ d = tableOf m e := by
  induction ts with
  | nil =>
    intro dir d h hdir
    cases Option.some.inj h
    exact hdir
  | cons t ts ih =>
    intro dir d h hdir
    rw [walk_cons] at h
    obtain ⟨next, hchild, hwalk⟩ := Option.bind_eq_some_iff.mp h
    refine ih (fun t ht => hts t (List.mem_cons_of_mem _ ht)) hwalk (.inr ?_)
    obtain ⟨e, hfind, rfl⟩ := Option.map_eq_some_iff.mp hchild
    obtain ⟨hlive, hattr'⟩ := named_spec (hts t List.mem_cons_self) (List.find?_some hfind)
    refine ⟨e, ?_, hattr', rfl⟩
    rcases hdir with rfl | ⟨e', htree, hattr, rfl⟩
    · exact .top (List.mem_of_find?_eq_some hfind) hlive
    · exact .nested htree hattr (List.mem_of_find?_eq_some hfind) hlive

/-- Writing an empty entry leaves the tree in place. -/
theorem InTree.frame {m m' : Mem} (hsame : SameOutside a m m') (ha : IsSlot a) (hnul : m a = 0)
    (h : InTree m b) : InTree m' b := by
  have hne : ∀ {e : Nat}, live m e = true → e ≠ a := fun hlive =>
    ne_of_live_of_dead hlive (live_eq_false_iff.mpr hnul)
  induction h with
  | top he hlive =>
    refine .top he ?_
    rw [live_frame hsame ha ⟨rootDir, .inl rfl, he⟩ (hne hlive)]
    exact hlive
  | @nested d e htree hattr he hlive ih =>
    have hd := htree.slot
    refine .nested ih ?_ ?_ ?_
    · exact (hsame.entry ha hd.1 (hne hd.2) (by decide)).trans hattr
    · rw [tableOf_frame hsame ha hd.1 (hne hd.2)]
      exact he
    · rw [live_frame hsame ha ⟨_, isTable_tableOf m d, he⟩ (hne hlive)]
      exact hlive

/-- The new entry is a directory of the tree. -/
theorem created_isDirectory {path : CString} (hslot : createSlot v.fs path = some a)
    (hin : InImage a) (hname : dirname.bytes ≠ []) :
    IsDirectory (writeEntry v.fs a dirname tm_info).mem a := by
  have ha := createSlot_isSlot hslot
  obtain ⟨dir, hdir, hat, hnul⟩ := createSlot_spec hslot
  refine ⟨?_, writeEntry_attributes, hin⟩
  have hlive : live (writeEntry v.fs a dirname tm_info).mem a = true :=
    writeEntry_live.mpr hname
  rw [find_directory_eq] at hdir
  rcases walk_inTree (fun t ht => tokens_no_nul path t ht) hdir (.inl rfl) with
    rfl | ⟨e, htree, hattr, rfl⟩
  · exact .top hat hlive
  · have hne : e ≠ a := ne_of_live_of_dead htree.slot.2 (live_eq_false_iff.mpr hnul)
    refine .nested (htree.frame writeEntry_outside ha hnul) ?_ ?_ hlive
    · exact (writeEntry_outside.entry ha htree.slot.1 hne (by decide)).trans hattr
    · rw [tableOf_frame writeEntry_outside ha htree.slot.1 hne]
      exact hat

/-- **A step that records an index of two bytes records a wrong block.** -/
theorem not_blocksOk (hv : fatSystem.Reachable v) (hop : ¬ Recordable v.fs op) :
    ¬ BlocksOk (v.apply op) := by
  cases op with
  | remove path dirname => exact absurd trivial hop
  | create path dirname tm_info =>
    unfold Recordable at hop
    push Not at hop
    obtain ⟨a, hslot, hin, hname, hfull⟩ := hop
    have hterm := reachable_terminated (.next hv rfl : fatSystem.Reachable
      (v.apply (.create path dirname tm_info)))
    have happly : v.apply (.create path dirname tm_info)
        = ⟨writeEntry v.fs a dirname tm_info,
            Function.update v.marks a (freeBlock v.fs.fat)⟩ := by
      simp only [Volume.apply, create_directory, hslot]
    rw [happly] at hterm ⊢
    intro hok
    obtain ⟨i, hi, hmark, -, hblock⟩ := hok.marked a (created_isDirectory hslot hin hname)
    have hfree : freeBlock v.fs.fat = some i := by
      rw [← hmark]
      exact (Function.update_self a (freeBlock v.fs.fat) v.marks).symm
    have hge : 256 ≤ i := by
      by_contra hlt
      exact hfull i (by omega) (freeBlock_some hfree).2.1
    -- one byte is less than the index
    rw [blockNumber_eq hterm (createSlot_isSlot hslot) hin] at hblock
    have hbyte := (first_block (writeEntry v.fs a dirname tm_info).mem a).toNat_lt
    change (first_block (writeEntry v.fs a dirname tm_info).mem a).toNat = i at hblock
    omega

/-- **The blocks of the tree are different and recorded** in every state of a run whose steps
    record indices of one byte, and after no other step. -/
theorem blocks_recorded (v : Volume) :
    ((fatSystem.restrict fun v op => Recordable v.fs op).Reachable v → BlocksOk v)
      ∧ ∀ op, fatSystem.Reachable v → ¬ Recordable v.fs op → ¬ BlocksOk (v.apply op) := by
  refine ⟨fun hv => ?_, fun op hv hop => not_blocksOk hv hop⟩
  have hrec : Recorded v := by
    refine hv.invariant (I := Recorded) ?_ ?_
    · intro v hv
      exact initialized_recorded hv
    · intro v op v' hv hstep
      rw [show v' = v.apply op from hstep.2]
      exact recorded_step hv hstep.1
  exact hrec.blocksOk (reachable_terminated hv.of_restrict)

/-! ## §5. The 257th block. -/

/-- The blank image after `n` rounds of creation and removal. -/
def worn (n : Nat) : Volume := ⟨⟨fun i => if i < n then 0xFFF else 0x000, fun _ => 0⟩, fun _ => none⟩

theorem worn_freeBlock {n : Nat} (hn : n < NUMBER_OF_BLOCKS) :
    freeBlock (worn n).fs.fat = some n := by
  obtain ⟨i, hi, hblock⟩ := freeBlock_le hn
    (show (worn n).fs.fat n = 0x000 from if_neg (Nat.lt_irrefl n))
  have hfree : (worn n).fs.fat i = 0x000 := (freeBlock_some hblock).2.1
  have hge : ¬ i < n := by
    intro hlt
    rw [show (worn n).fs.fat i = 0xFFF from if_pos hlt] at hfree
    cases hfree
  rw [hblock, show i = n by omega]

theorem worn_createSlot (n : Nat) : createSlot (worn n).fs root = some rootDir := rfl

/-- The volume between creation and removal. -/
def busy (n : Nat) : Volume :=
  ⟨writeEntry (worn n).fs rootDir nameA midnight,
    Function.update (worn n).marks rootDir (freeBlock (worn n).fs.fat)⟩

theorem busy_outside {n x : Nat} (h : x < rootDir ∨ rootDir + sizeofDirectoryEntry ≤ x) :
    (busy n).fs.mem x = 0 := writeEntry_outside x h

/-- The only entry is found again. -/
theorem busy_removeTarget (n : Nat) : removeTarget (busy n).fs root nameA = some rootDir := by
  have hbyte : ∀ i < MAX_FILENAME, (padded MAX_FILENAME nameA.bytes)[i]?
      = some ((busy n).fs.mem (rootDir + i)) := fun i hi => writeEntry_name hi
  have h0 : (busy n).fs.mem rootDir = 65 := (Option.some.inj (hbyte 0 (by decide))).symm
  have h1 : (busy n).fs.mem (rootDir + 1) = 0 := (Option.some.inj (hbyte 1 (by decide))).symm
  have hname : strnEq (busy n).fs.mem rootDir MAX_FILENAME nameA.bytes = true := by
    show ((busy n).fs.mem rootDir == 65 && (busy n).fs.mem (rootDir + 1) == 0) = true
    rw [h0, h1]
    rfl
  have hattr : file_attributes (busy n).fs.mem rootDir = 0x10 := writeEntry_attributes
  have hscan : removeTarget (busy n).fs root nameA
      = (rootDir :: entriesFrom 223 (rootDir + sizeofDirectoryEntry)).find? fun a =>
          strnEq (busy n).fs.mem a MAX_FILENAME nameA.bytes
            && file_attributes (busy n).fs.mem a == 0x10 := rfl
  rw [hscan]
  refine List.find?_cons_of_pos ?_
  rw [hname, hattr]
  rfl

theorem busy_is_empty (n : Nat) : is_empty (busy n).fs.mem rootDir = true := by
  refine List.all_eq_true.mpr fun e he => ?_
  by_cases hne : e = rootDir
  · rw [hne]
    simp
  · have hslot : ∀ b ∈ table rootDir, IsSlot b := fun b hb => ⟨rootDir, .inl rfl, hb⟩
    have hdead : live (busy n).fs.mem e = false := live_frame (m := (worn n).fs.mem)
      writeEntry_outside (hslot rootDir List.mem_cons_self) (hslot e he) hne
    rw [hdead]
    rfl

/-- Creation and removal leave a marked FAT entry behind. -/
theorem worn_succ {n : Nat} (hn : n < NUMBER_OF_BLOCKS) :
    ((worn n).apply (.create root nameA midnight)).apply (.remove root nameA) = worn (n + 1) := by
  have hcreate : (worn n).apply (.create root nameA midnight) = busy n := by
    simp only [Volume.apply, create_directory, worn_createSlot, busy]
  have hremove : (busy n).apply (.remove root nameA)
      = ⟨erase (busy n).fs rootDir, Function.update (busy n).marks rootDir none⟩ := by
    simp only [Volume.apply, remove_directory, busy_removeTarget, busy_is_empty, if_true]
  have hmem : (erase (busy n).fs rootDir).mem = (worn (n + 1)).fs.mem := by
    funext x
    by_cases hx : x < rootDir ∨ rootDir + sizeofDirectoryEntry ≤ x
    · exact (erase_outside x hx).trans (busy_outside hx)
    · exact erase_inside (by omega) (by omega)
  have hfat : (busy n).fs.fat = (worn (n + 1)).fs.fat := by
    have hupdate : (busy n).fs.fat = Function.update (worn n).fs.fat n 0xFFF := by
      unfold busy writeEntry
      rw [worn_freeBlock hn]
    rw [hupdate]
    funext i
    rw [Function.update_apply]
    unfold worn
    simp only
    split
    · rw [if_pos (by omega)]
    · next hne =>
      by_cases hlt : i < n
      · rw [if_pos hlt, if_pos (by omega)]
      · rw [if_neg hlt, if_neg (by omega)]
  have hmarks : Function.update (busy n).marks rootDir none = (worn (n + 1)).marks := by
    unfold busy worn
    rw [Function.update_idem]
    exact Function.update_eq_self rootDir (fun _ => none)
  rw [hcreate, hremove, hmarks]
  unfold erase at hmem ⊢
  rw [hfat]
  exact congrArg (fun m => (⟨⟨(worn (n + 1)).fs.fat, m⟩, (worn (n + 1)).marks⟩ : Volume)) hmem

theorem worn_reachable {n : Nat} (hn : n ≤ NUMBER_OF_BLOCKS) : fatSystem.Reachable (worn n) := by
  induction n with
  | zero => exact .start ⟨⟨fun _ => rfl, fun _ _ => rfl⟩, rfl⟩
  | succ n ih => exact .next (.next (ih (by omega)) rfl) (worn_succ (by omega)).symm

/-- **The block of the next directory is 256, and is recorded as 0.** -/
theorem block_256_lost :
    fatSystem.Reachable ((worn 256).apply (.create root nameA midnight))
      ∧ ¬ BlocksOk ((worn 256).apply (.create root nameA midnight)) := by
  have hworn := worn_reachable (n := 256) (by decide)
  refine ⟨.next hworn rfl, not_blocksOk hworn fun hop => ?_⟩
  obtain ⟨i, hi, hfree⟩ := hop rootDir (worn_createSlot 256) (by decide) (by decide)
  rw [show (worn 256).fs.fat i = 0xFFF from if_pos hi] at hfree
  cases hfree

end SystemOS.Fat12.Blocks
