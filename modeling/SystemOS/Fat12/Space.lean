/-
  SystemOS.Fat12.Space — the FAT as an account of the directory tree.

  `create_directory` marks a FAT entry for the directory it makes, and `dump_file_system_info`
  counts the entries that are not 0x000 as occupied blocks.  `remove_directory` clears the directory
  entry and leaves the FAT as it is, so the count goes wrong with the first removal.

  Main results:
    * `rooted_step`      — as long as no live entry is removed, every live entry is in the tree.
    * `accounted_step`   — the occupied blocks are as many as the directories after a step that
      meets the condition.
    * `blocks_accounted` — so they are in every state of runs of such steps, and a removal never
      gives back the block of a creation.
-/
import SystemOS.Fat12.Blocks
import Mathlib.Data.Set.Card

namespace SystemOS.Fat12.Space

open SystemOS.Lib.ByteMemory SystemOS.Lib.Strings SystemOS.Lib.Transition
open SystemOS.Fat12.FileSystem SystemOS.Fat12.Tables SystemOS.Fat12.Blocks

/-! ## §1. The account. -/

/-- `occupied_blocks` of `dump_file_system_info`. -/
def occupied (fat : Nat → Nat) : Nat :=
  ((Finset.range NUMBER_OF_BLOCKS).filter fun i => fat i ≠ 0x000).card

/-- The number of live directory entries in the tree. -/
noncomputable def treeSize (m : Mem) : Nat := Set.ncard {a | IsDirectory m a}

def Balanced (fs : Image) : Prop := occupied fs.fat = treeSize fs.mem

def HasFree (fat : Nat → Nat) : Prop := ∃ i < NUMBER_OF_BLOCKS, fat i = 0x000

instance (fat : Nat → Nat) : Decidable (HasFree fat) := by
  unfold HasFree
  infer_instance

/-- A creation makes a live entry in the image exactly when it finds a free FAT entry, and no live
    entry is removed. -/
def Accounted (fs : Image) : Op → Prop
  | .create path dirname _ => ∀ a, createSlot fs path = some a →
      (InImage a ∧ dirname.bytes ≠ [] ↔ HasFree fs.fat)
  | .remove path dirname => ∀ a, removeTarget fs path dirname = some a →
      is_empty fs.mem a = true → live fs.mem a = false

/-! ## §2. Live entries are in the tree. -/

variable {m : Mem} {v : Volume} {fs : Image} {op : Op} {a b : Nat} {path dirname : CString}
  {tm_info : tm}

/-- Every live entry of the image is a directory of the tree. -/
def Rooted (m : Mem) : Prop :=
  ∀ a, IsSlot a → InImage a → live m a = true → InTree m a ∧ file_attributes m a = 0x10

theorem rooted_create (hv : Rooted v.fs.mem) (hslot : createSlot v.fs path = some a) :
    Rooted (writeEntry v.fs a dirname tm_info).mem := by
  intro b hb hin hlive
  have ha := createSlot_isSlot hslot
  obtain ⟨-, -, -, hnul⟩ := createSlot_spec hslot
  by_cases hba : b = a
  · subst hba
    have hdir : IsDirectory (writeEntry v.fs b dirname tm_info).mem b :=
      created_isDirectory hslot hin (writeEntry_live.mp hlive)
    exact ⟨hdir.1, hdir.2.1⟩
  · rw [live_frame writeEntry_outside ha hb hba] at hlive
    obtain ⟨htree, hattr⟩ := hv b hb hin hlive
    exact ⟨htree.frame writeEntry_outside ha hnul,
      (writeEntry_outside.entry ha hb hba (by decide)).trans hattr⟩

theorem rooted_erase (hv : Rooted v.fs.mem) (ha : IsSlot a) (hdead : live v.fs.mem a = false) :
    Rooted (erase v.fs a).mem := by
  intro b hb hin hlive
  obtain ⟨hba, hlive⟩ := (erase_live_iff ha hb).mp hlive
  obtain ⟨htree, hattr⟩ := hv b hb hin hlive
  exact ⟨htree.frame erase_outside ha (live_eq_false_iff.mp hdead),
    (erase_outside.entry ha hb hba (by decide)).trans hattr⟩

/-- **Live entries stay in the tree** while no live entry is removed. -/
theorem rooted_step (hv : Rooted v.fs.mem) (hop : Accounted v.fs op) :
    Rooted (v.apply op).fs.mem := by
  rcases apply_cases v op with h | ⟨path, dirname, tm_info, a, rfl, hslot, h⟩ |
    ⟨path, dirname, a, rfl, htarget, hempty, h⟩ <;> rw [h]
  · exact hv
  · exact rooted_create hv hslot
  · exact rooted_erase hv (removeTarget_isSlot htarget) (hop a htarget hempty)

/-! ## §3. Counting. -/

/-- The live entries of the image. -/
def entries (m : Mem) : Set Nat := {a | IsSlot a ∧ InImage a ∧ live m a = true}

theorem entries_finite (m : Mem) : (entries m).Finite := by
  refine (Set.finite_lt_nat sizeofFileSystem).subset fun a ha => ?_
  exact Nat.lt_of_lt_of_le (Nat.lt_add_of_pos_right (by decide)) ha.2.1

theorem directories_subset (m : Mem) : {a | IsDirectory m a} ⊆ entries m :=
  fun _ ha => ⟨ha.1.slot.1, ha.2.2, ha.1.slot.2⟩

theorem Rooted.treeSize (h : Rooted m) : treeSize m = (entries m).ncard := by
  refine congrArg Set.ncard (Set.Subset.antisymm (directories_subset m) fun a ha => ?_)
  obtain ⟨hslot, hin, hlive⟩ := ha
  obtain ⟨htree, hattr⟩ := h a hslot hin hlive
  exact ⟨htree, hattr, hin⟩

/-- An entry that is not live afterwards adds none. -/
theorem entries_of_dead {m' : Mem} (hsame : SameOutside a m m') (ha : IsSlot a)
    (hdead : live m a = false) (hdead' : InImage a → live m' a = false) : entries m' = entries m := by
  refine Set.ext fun b => and_congr_right fun hb => and_congr_right fun hin => ?_
  by_cases hba : b = a
  · subst hba
    rw [hdead, hdead' hin]
  · rw [live_frame hsame ha hb hba]

/-- One that is adds itself. -/
theorem entries_of_live {m' : Mem} (hsame : SameOutside a m m') (ha : IsSlot a) (hin : InImage a)
    (hlive : live m' a = true) : entries m' = insert a (entries m) := by
  refine Set.ext fun b => ?_
  rw [Set.mem_insert_iff]
  by_cases hba : b = a
  · subst hba
    exact ⟨fun _ => .inl rfl, fun _ => ⟨ha, hin, hlive⟩⟩
  · rw [or_iff_right hba]
    refine and_congr_right fun hb => and_congr_right fun _ => ?_
    rw [live_frame hsame ha hb hba]

/-- What a creation adds to the tree. -/
theorem treeSize_create (hv : Rooted v.fs.mem) (hslot : createSlot v.fs path = some a) :
    treeSize (writeEntry v.fs a dirname tm_info).mem
      = treeSize v.fs.mem + if InImage a ∧ dirname.bytes ≠ [] then 1 else 0 := by
  have ha := createSlot_isSlot hslot
  obtain ⟨-, -, -, hnul⟩ := createSlot_spec hslot
  have hdead : live v.fs.mem a = false := live_eq_false_iff.mpr hnul
  rw [(rooted_create hv hslot).treeSize, hv.treeSize]
  by_cases hnew : InImage a ∧ dirname.bytes ≠ []
  · rw [if_pos hnew, entries_of_live writeEntry_outside ha hnew.1 (writeEntry_live.mpr hnew.2)]
    refine Set.ncard_insert_of_notMem (fun hmem => ?_) (entries_finite _)
    cases hdead.symm.trans hmem.2.2
  · rw [if_neg hnew, entries_of_dead writeEntry_outside ha hdead fun hin => ?_]
    · rfl
    · exact writeEntry_dead (by_contra fun hname => hnew ⟨hin, hname⟩)

/-- What it adds to the occupied blocks. -/
theorem occupied_create : occupied (writeEntry fs a dirname tm_info).fat
    = occupied fs.fat + if HasFree fs.fat then 1 else 0 := by
  cases hblock : freeBlock fs.fat with
  | none =>
    have hfull : ¬ HasFree fs.fat := fun ⟨i, hi, hfree⟩ =>
      freeBlock_eq_none_iff.mp hblock i hi hfree
    have hfat : (writeEntry fs a dirname tm_info).fat = fs.fat := by
      rw [writeEntry_fat_eq, hblock]
      rfl
    rw [hfat, if_neg hfull, Nat.add_zero]
  | some i =>
    obtain ⟨hi, hfree, -⟩ := freeBlock_some hblock
    have hfat : (writeEntry fs a dirname tm_info).fat = Function.update fs.fat i 0xFFF := by
      rw [writeEntry_fat_eq, hblock]
      rfl
    have hfilter : ((Finset.range NUMBER_OF_BLOCKS).filter fun k =>
        Function.update fs.fat i 0xFFF k ≠ 0x000)
          = insert i ((Finset.range NUMBER_OF_BLOCKS).filter fun k => fs.fat k ≠ 0x000) := by
      ext k
      rw [Finset.mem_insert, Finset.mem_filter, Finset.mem_filter, Finset.mem_range,
        Function.update_apply]
      by_cases hk : k = i
      · subst hk
        simpa using hi
      · simp [hk]
    unfold occupied
    rw [hfat, hfilter, if_pos ⟨i, hi, hfree⟩]
    refine Finset.card_insert_of_notMem fun hmem => ?_
    exact (Finset.mem_filter.mp hmem).2 hfree

/-- The count after a creation is right exactly when the creation was accounted for. -/
theorem balanced_create (hv : Rooted v.fs.mem) (hold : Balanced v.fs)
    (hslot : createSlot v.fs path = some a) :
    Balanced (writeEntry v.fs a dirname tm_info)
      ↔ (InImage a ∧ dirname.bytes ≠ [] ↔ HasFree v.fs.fat) := by
  unfold Balanced at hold ⊢
  rw [treeSize_create hv hslot, occupied_create, hold]
  split_ifs with hfree hnew hnew
  · exact ⟨fun _ => iff_of_true hnew hfree, fun _ => rfl⟩
  · exact ⟨fun heq => by omega, fun h => absurd (h.mpr hfree) hnew⟩
  · exact ⟨fun heq => by omega, fun h => absurd (h.mp hnew) hfree⟩
  · exact ⟨fun _ => iff_of_false hnew hfree, fun _ => rfl⟩

/-- Erasing an entry that is not live changes no count. -/
theorem balanced_erase (hv : Rooted v.fs.mem) (hold : Balanced v.fs) (ha : IsSlot a)
    (hdead : live v.fs.mem a = false) : Balanced (erase v.fs a) := by
  unfold Balanced at hold ⊢
  rw [(rooted_erase hv ha hdead).treeSize,
    entries_of_dead erase_outside ha hdead fun _ => erase_not_live, ← hv.treeSize]
  exact hold

/-- Erasing a live entry of the image makes the tree smaller and leaves the FAT as it is. -/
theorem not_balanced_erase (hv : Rooted v.fs.mem) (hold : Balanced v.fs) (ha : IsSlot a)
    (hin : InImage a) (hlive : live v.fs.mem a = true) : ¬ Balanced (erase v.fs a) := by
  -- no directory is gained, and `a` is lost
  have hsub : {b | IsDirectory (erase v.fs a).mem b} ⊂ {b | IsDirectory v.fs.mem b} := by
    refine Set.ssubset_iff_subset_ne.mpr ⟨fun b hb => ?_, fun heq => ?_⟩
    · obtain ⟨htree, hattr, hbin⟩ := hb
      obtain ⟨hb, hlive⟩ := htree.slot
      obtain ⟨htree, hattr⟩ := hv b hb hbin ((erase_live_iff ha hb).mp hlive).2
      exact ⟨htree, hattr, hbin⟩
    · obtain ⟨htree, hattr⟩ := hv a ha hin hlive
      have hmem : a ∈ {b | IsDirectory (erase v.fs a).mem b} := heq ▸ ⟨htree, hattr, hin⟩
      cases erase_not_live.symm.trans hmem.1.slot.2
  have hlt := Set.ncard_lt_ncard hsub ((entries_finite _).subset (directories_subset _))
  unfold Balanced at hold ⊢
  intro heq
  exact hlt.ne (heq.symm.trans hold)

/-! ## §4. Runs. -/

/-- **The count after a step.** -/
theorem accounted_step (hv : Rooted v.fs.mem) (hold : Balanced v.fs) (hop : Accounted v.fs op) :
    Balanced (v.apply op).fs := by
  rcases apply_cases v op with h | ⟨path, dirname, tm_info, a, rfl, hslot, h⟩ |
    ⟨path, dirname, a, rfl, htarget, hempty, h⟩ <;> rw [h]
  · exact hold
  · exact (balanced_create hv hold hslot).mpr (hop a hslot)
  · exact balanced_erase hv hold (removeTarget_isSlot htarget) (hop a htarget hempty)

theorem initialized_accounted (h : fatSystem.init v) : Rooted v.fs.mem ∧ Balanced v.fs := by
  have hdead : ∀ a, IsSlot a → InImage a → ¬ live v.fs.mem a = true := by
    intro a ha hin
    rw [initialized_dead h.1 ha hin]
    decide
  have hrooted : Rooted v.fs.mem := fun a ha hin hlive => absurd hlive (hdead a ha hin)
  have hentries : entries v.fs.mem = ∅ :=
    Set.eq_empty_of_forall_notMem fun a ha => hdead a ha.1 ha.2.1 ha.2.2
  refine ⟨hrooted, ?_⟩
  unfold Balanced
  rw [hrooted.treeSize, hentries, Set.ncard_empty]
  refine Finset.card_eq_zero.mpr (Finset.filter_eq_empty_iff.mpr fun i _ => ?_)
  exact not_not.mpr (h.1.1 i)

/-- A removal leaves the FAT as it is. -/
theorem remove_fat (v : Volume) (path dirname : CString) :
    (v.apply (.remove path dirname)).fs.fat = v.fs.fat := by
  rcases apply_cases v (.remove path dirname) with h | ⟨_, _, _, _, hop, _⟩ | ⟨_, _, _, _, _, _, h⟩
  · rw [h]
  · cases hop
  · rw [h]
    rfl

/-- **The account of the FAT.**  In every state of a run in which each creation makes a live entry
    in the image exactly when it finds a free FAT entry, and no live entry is removed, the occupied
    blocks are as many as the directories.  The first other step makes the numbers differ, unless it
    is a removal behind the image; and after a creation that marked a FAT entry, no removal restores
    the FAT. -/
theorem blocks_accounted (v : Volume) :
    ((fatSystem.restrict fun v op => Accounted v.fs op).Reachable v → Balanced v.fs)
      ∧ (∀ op, (fatSystem.restrict fun v op => Accounted v.fs op).Reachable v →
          ¬ Accounted v.fs op →
          (∀ path dirname a, op = .remove path dirname → removeTarget v.fs path dirname = some a →
            InImage a) → ¬ Balanced (v.apply op).fs)
      ∧ ∀ path dirname tm_info a path' dirname', createSlot v.fs path = some a →
          HasFree v.fs.fat →
          ((v.apply (.create path dirname tm_info)).apply (.remove path' dirname')).fs.fat
            ≠ v.fs.fat := by
  have hinv : (fatSystem.restrict fun v op => Accounted v.fs op).Reachable v →
      Rooted v.fs.mem ∧ Balanced v.fs := by
    intro hv
    refine hv.invariant (I := fun v => Rooted v.fs.mem ∧ Balanced v.fs) ?_ ?_
    · intro v hv
      exact initialized_accounted hv
    · intro v op v' h hstep
      rw [show v' = v.apply op from hstep.2]
      exact ⟨rooted_step h.1 hstep.1, accounted_step h.1 h.2 hstep.1⟩
  refine ⟨fun hv => (hinv hv).2, fun op hv hop hinside => ?_, ?_⟩
  · obtain ⟨hrooted, hold⟩ := hinv hv
    cases op with
    | create path dirname tm_info =>
      obtain ⟨a, hop⟩ := not_forall.mp hop
      obtain ⟨hslot, hmiss⟩ := Classical.not_imp.mp hop
      rw [apply_create hslot, balanced_create hrooted hold hslot]
      exact hmiss
    | remove path dirname =>
      unfold Accounted at hop
      push Not at hop
      obtain ⟨a, htarget, hempty, hlive⟩ := hop
      have happly : (v.apply (.remove path dirname)).fs = erase v.fs a := by
        simp only [Volume.apply, remove_directory, htarget, hempty, if_true]
      rw [happly]
      exact not_balanced_erase hrooted hold (removeTarget_isSlot htarget)
        (hinside path dirname a rfl htarget) (by simpa using hlive)
  · -- the creation has occupied one block more, and the removal keeps the count
    intro path dirname tm_info a path' dirname' hslot hfree heq
    rw [remove_fat, apply_create hslot] at heq
    have hcount := @occupied_create v.fs a dirname tm_info
    rw [heq, if_pos hfree] at hcount
    omega

/-- A directory has been made and removed, and its block is still occupied. -/
theorem block_leaked : ¬ ∀ v, fatSystem.Reachable v → Balanced v.fs := by
  intro hclaim
  have hbalanced : occupied (worn 1).fs.fat = treeSize (worn 1).fs.mem :=
    hclaim (worn 1) (worn_reachable (by decide))
  have hempty : {a | IsDirectory (worn 1).fs.mem a} = ∅ :=
    Set.eq_empty_of_forall_notMem fun a ha => absurd ha.1.slot.2 Bool.false_ne_true
  have hfirst : 0 ∈ (Finset.range NUMBER_OF_BLOCKS).filter fun i => (worn 1).fs.fat i ≠ 0x000 := by
    rw [Finset.mem_filter, Finset.mem_range]
    decide
  have hpos := Finset.card_pos.mpr ⟨0, hfirst⟩
  unfold treeSize at hbalanced
  rw [hempty, Set.ncard_empty] at hbalanced
  exact hpos.ne' hbalanced

end SystemOS.Fat12.Space
