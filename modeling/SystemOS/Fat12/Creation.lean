/-
  SystemOS.Fat12.Creation — what a creation does when there is nothing left to hand out.

  `create_directory` fills in the name, the attributes and the type of the entry before it looks for
  a free FAT entry, and goes on when there is none; only byte 0 of the index is recorded.

  Main results:
    * `unchanged_unnamed`   — a creation that finds an entry to write and changes nothing found the
      unnamed directory of the same time there, and no free FAT entry.
    * `allOrNothing_iff`    — a creation is all or nothing exactly when it finds no entry to write,
      or one of the first 256 FAT entries is free, or there is nothing new to write.
-/
import SystemOS.Fat12.Blocks

namespace SystemOS.Fat12.Creation

open SystemOS.Lib.ByteMemory SystemOS.Lib.Strings SystemOS.Lib.Transition
open SystemOS.Fat12.FileSystem SystemOS.Fat12.Tables SystemOS.Fat12.Blocks

/-! ## §1. The bytes of an entry. -/

/-- The four bytes of date and time. -/
def encoded (tm_info : tm) : List UInt8 :=
  let year : UInt32 := tm_info.tm_year + 1900 - 1980
  let month : UInt32 := tm_info.tm_mon + 1
  let day : UInt32 := tm_info.tm_mday
  let hour : UInt32 := tm_info.tm_hour
  let minute : UInt32 := tm_info.tm_min
  let second : UInt32 := tm_info.tm_sec / 2
  [((day &&& (0x1F : UInt32)) ||| ((month &&& 0x07) <<< 5)).toUInt8,
   (((month &&& 0x08) >>> 3) ||| ((year &&& 0x7F) <<< 1)).toUInt8,
   ((second &&& (0x1F : UInt32)) ||| ((minute &&& 0x07) <<< 5)).toUInt8,
   (((minute &&& 0x38) >>> 3) ||| ((hour &&& 0x1F) <<< 3)).toUInt8]

theorem encoded_length (tm_info : tm) : (encoded tm_info).length = 4 := rfl

theorem writeTimes_eq (m : Mem) (a : Nat) (tm_info : tm) :
    writeTimes m a tm_info = writeBytes m (a + 26) (encoded tm_info) := rfl

/-- The entry at `a` is the unnamed directory of the time `tm_info`. -/
structure Unnamed (m : Mem) (a : Nat) (tm_info : tm) : Prop where
  filename : ∀ i < MAX_FILENAME, m (a + i) = 0
  attributes : file_attributes m a = 0x10
  file_type : m (a + 31) = 0x01
  times : ∀ (i : Nat) (h : i < (encoded tm_info).length), m (a + 26 + i) = (encoded tm_info)[i]

variable {fs : Image} {a : Nat} {path dirname : CString} {tm_info : tm}

theorem writeEntry_type : (writeEntry fs a dirname tm_info).mem (a + 31) = 0x01 := by
  rw [writeEntry_mem _ _ _ _ (by omega), if_neg (by omega), if_pos rfl]

theorem writeEntry_times {i : Nat} (h : i < (encoded tm_info).length) :
    (writeEntry fs a dirname tm_info).mem (a + 26 + i) = (encoded tm_info)[i] := by
  unfold writeEntry
  cases freeBlock fs.fat with
  | none =>
    simp only [writeTimes_eq]
    exact writeBytes_at _ h
  | some k =>
    simp only [writeTimes_eq]
    exact writeBytes_at _ h

/-- Writing the unnamed directory over itself. -/
theorem writeEntry_unnamed (hfull : freeBlock fs.fat = none) (hname : dirname.bytes = [])
    (h : Unnamed fs.mem a tm_info) : (writeEntry fs a dirname tm_info).mem = fs.mem := by
  funext x
  by_cases htimes : a + 26 ≤ x ∧ x < a + 30
  · obtain ⟨i, rfl⟩ : ∃ i, x = a + 26 + i := ⟨x - (a + 26), by omega⟩
    have hi : i < (encoded tm_info).length := by
      rw [encoded_length]
      omega
    rw [writeEntry_times hi, h.times i hi]
  · rw [writeEntry_mem _ _ _ _ (by omega), hfull]
    simp only [Option.map_none, Option.getD_none]
    split
    · rfl
    · split
      · next hx => rw [hx, h.file_type]
      · split
        · next hx =>
          rw [hx]
          exact h.attributes.symm
        · by_cases hin : a ≤ x ∧ x < a + MAX_FILENAME
          · obtain ⟨i, rfl⟩ : ∃ i, x = a + i := ⟨x - a, by omega⟩
            have hi : i < (padded MAX_FILENAME dirname.bytes).length := by
              rw [padded_length]
              omega
            rw [writeBytes_at _ hi, h.filename i (by omega)]
            simp [padded, hname]
          · exact writeBytes_of_out _ (by rw [padded_length]; omega)

/-! ## §2. All or nothing. -/

/-- A creation leaves the image as it is, or it writes one empty entry of the table of the parent
    and marks the one free FAT entry that the new entry refers to. -/
def AllOrNothing (fs : Image) (path dirname : CString) (tm_info : tm) : Prop :=
  create_directory fs path dirname tm_info = fs ∨
    ∃ dir a i, find_directory fs path = some dir ∧ a ∈ table dir ∧ fs.mem a = 0 ∧
      SameOutside a fs.mem (create_directory fs path dirname tm_info).mem ∧ fs.fat i = 0x000 ∧
      (create_directory fs path dirname tm_info).fat = Function.update fs.fat i 0xFFF ∧
      (first_block (create_directory fs path dirname tm_info).mem a).toNat = i

/-- A creation that finds an entry to write finds a free FAT entry with an index of one byte, or
    no free FAT entry and nothing new to write. -/
def Provided (fs : Image) (path dirname : CString) (tm_info : tm) : Prop :=
  ∀ a, createSlot fs path = some a → (∃ i < 256, fs.fat i = 0x000) ∨
    (∀ i < NUMBER_OF_BLOCKS, fs.fat i ≠ 0x000) ∧ dirname.bytes = [] ∧ Unnamed fs.mem a tm_info

theorem create_of_slot (h : createSlot fs path = some a) :
    create_directory fs path dirname tm_info = writeEntry fs a dirname tm_info := by
  simp only [create_directory, h]

theorem create_of_none (h : createSlot fs path = none) :
    create_directory fs path dirname tm_info = fs := by
  simp only [create_directory, h]

/-- A creation that changes nothing has found no free FAT entry: a marked one is a change. -/
theorem full_of_unchanged (h : writeEntry fs a dirname tm_info = fs) : freeBlock fs.fat = none := by
  have hfat := writeEntry_fat_eq fs a dirname tm_info
  rw [h] at hfat
  cases hblock : freeBlock fs.fat with
  | none => rfl
  | some i =>
    rw [hblock] at hfat
    have hi : fs.fat i = 0xFFF := by
      conv_lhs => rw [hfat]
      exact Function.update_self i _ _
    rw [(freeBlock_some hblock).2.1] at hi
    exact absurd hi (by decide)

/-- Its name is the empty one, which leaves the entry empty. -/
theorem nameless_of_unchanged (h : writeEntry fs a dirname tm_info = fs) (hnul : fs.mem a = 0) :
    dirname.bytes = [] := by
  by_contra hne
  have hlive : live (writeEntry fs a dirname tm_info).mem a = true := writeEntry_live.mpr hne
  rw [h, live_eq_false_iff.mpr hnul] at hlive
  cases hlive

/-- The bytes that the empty name leaves. -/
theorem unnamed_of_unchanged (h : writeEntry fs a dirname tm_info = fs)
    (hname : dirname.bytes = []) : Unnamed fs.mem a tm_info := by
  constructor
  · intro i hi
    have hbyte : (padded MAX_FILENAME dirname.bytes)[i]?
        = some ((writeEntry fs a dirname tm_info).mem (a + i)) := writeEntry_name hi
    rw [h, hname] at hbyte
    unfold MAX_FILENAME at hi
    simp only [padded, List.nil_append, List.take_replicate, List.getElem?_replicate] at hbyte
    rw [if_pos (by unfold MAX_FILENAME; omega)] at hbyte
    exact (Option.some.inj hbyte).symm
  · have hattr : file_attributes (writeEntry fs a dirname tm_info).mem a = 0x10 :=
      writeEntry_attributes
    rwa [h] at hattr
  · have htype : (writeEntry fs a dirname tm_info).mem (a + 31) = 0x01 := writeEntry_type
    rwa [h] at htype
  · intro i hi
    have htimes : (writeEntry fs a dirname tm_info).mem (a + 26 + i) = (encoded tm_info)[i] :=
      writeEntry_times hi
    rwa [h] at htimes

/-- **What a creation that changes nothing would have written.** -/
theorem unchanged_unnamed (h : writeEntry fs a dirname tm_info = fs) (hnul : fs.mem a = 0) :
    (∀ i < NUMBER_OF_BLOCKS, fs.fat i ≠ 0x000) ∧ dirname.bytes = [] ∧
      Unnamed fs.mem a tm_info := by
  have hname := nameless_of_unchanged h hnul
  exact ⟨freeBlock_eq_none_iff.mp (full_of_unchanged h), hname, unnamed_of_unchanged h hname⟩

theorem AllOrNothing.provided (h : AllOrNothing fs path dirname tm_info) :
    Provided fs path dirname tm_info := by
  intro a hslot
  rcases h with hsame | ⟨dir, b, i, _, _, _, _, hfree, _, href⟩
  · rw [create_of_slot hslot] at hsame
    obtain ⟨dir, _, _, hnul⟩ := createSlot_spec hslot
    exact .inr (unchanged_unnamed hsame hnul)
  · refine .inl ⟨i, ?_, hfree⟩
    rw [← href]
    exact UInt8.toNat_lt _

theorem Provided.allOrNothing (h : Provided fs path dirname tm_info) :
    AllOrNothing fs path dirname tm_info := by
  cases hslot : createSlot fs path with
  | none => exact .inl (create_of_none hslot)
  | some a =>
    obtain ⟨dir, hdir, ha, hnul⟩ := createSlot_spec hslot
    unfold AllOrNothing
    rw [create_of_slot hslot]
    rcases h a hslot with ⟨i, hi, hfree⟩ | ⟨hfull, hname, hunnamed⟩
    · -- the first free FAT entry has an index of one byte
      obtain ⟨j, hj, hblock⟩ := freeBlock_le (Nat.lt_of_lt_of_le hi (by decide)) hfree
      refine .inr ⟨dir, a, j, hdir, ha, hnul, writeEntry_outside, (freeBlock_some hblock).2.1,
        ?_, ?_⟩
      · rw [writeEntry_fat_eq, hblock]
        rfl
      · rw [writeEntry_first_block hblock, UInt8.toNat_ofNat']
        omega
    · have hnone : freeBlock fs.fat = none := freeBlock_eq_none_iff.mpr hfull
      have hmem := writeEntry_unnamed hnone hname hunnamed
      have hfat : (writeEntry fs a dirname tm_info).fat = fs.fat := by
        rw [writeEntry_fat_eq, hnone]
        rfl
      left
      generalize writeEntry fs a dirname tm_info = fs' at hmem hfat
      cases fs'
      cases fs
      simp only at hmem hfat
      rw [hmem, hfat]

/-- **When a creation is all or nothing**, for every image, path and name. -/
theorem allOrNothing_iff (fs : Image) (path dirname : CString) (tm_info : tm) :
    AllOrNothing fs path dirname tm_info ↔ Provided fs path dirname tm_info :=
  ⟨AllOrNothing.provided, Provided.allOrNothing⟩

/-- **After 8192 rounds of creation and removal** no FAT entry is free, and a creation writes its
    entry all the same. -/
theorem full_fat_written : ¬ ∀ v, fatSystem.Reachable v → ∀ path dirname tm_info,
    AllOrNothing v.fs path dirname tm_info := by
  intro hclaim
  have hprovided := (hclaim (worn NUMBER_OF_BLOCKS) (worn_reachable le_rfl) root nameA
    midnight).provided
  rcases hprovided rootDir (worn_createSlot _) with ⟨i, hi, hfree⟩ | ⟨_, hname, _⟩
  · have hmarked : (worn NUMBER_OF_BLOCKS).fs.fat i = 0xFFF :=
      if_pos (Nat.lt_of_lt_of_le hi (by decide))
    rw [hmarked] at hfree
    cases hfree
  · exact absurd hname (by decide)

end SystemOS.Fat12.Creation
