/-
  SystemOS.Fat12.ImageFile — images in files.

  A program loads the file system into an object on its stack and writes the whole object back.
  What lies behind the object is different in every run of the program, and tables of the last blocks
  reach there; as long as the blocks are low, an operation sees the object only.

  Main results:
    * `same_loaded`                — an image is read back as it was written.
    * `SameImage.find_directory` — images that agree in the object find the same directories.
    * `SameImage.create_directory`, `SameImage.remove_directory` — they agree after an operation.
-/
import SystemOS.Fat12.Bounds
import SystemOS.Fat12.Space
import SystemOS.Fat12.Times
import Mathlib.Data.List.GetD

namespace SystemOS.Fat12.ImageFile

open SystemOS.Lib.ByteMemory SystemOS.Lib.Strings SystemOS.Lib.Transition
open SystemOS.Lib.Lines SystemOS.Lib.Decimal
open SystemOS.Fat12.FileSystem SystemOS.Fat12.Tables SystemOS.Fat12.Blocks SystemOS.Fat12.Bounds
open SystemOS.Fat12.Space SystemOS.Fat12.Times

/-! ## §1. Files. -/

/-- The offset of `fat`. -/
def fatPos : Nat := 20

/-- The byte of the object at an offset; FAT entries are little-endian words. -/
def objectByte (fs : Image) (x : Nat) : UInt8 :=
  if fatPos ≤ x ∧ x < rootDir then
    if (x - fatPos) % 2 = 0 then UInt8.ofNat (fs.fat ((x - fatPos) / 2))
    else UInt8.ofNat (fs.fat ((x - fatPos) / 2) / 256)
  else fs.mem x

/-- `fwrite(fs, sizeof(FileSystem), 1, file)`. -/
def write_file_system_to_file (fs : Image) : List UInt8 :=
  (List.range sizeofFileSystem).map (objectByte fs)

/-- `fread(fs, sizeof(FileSystem), 1, file)` into an object: a short file leaves the rest as it is. -/
def read_file_system_from_file (object : Image) (file : List UInt8) : Image where
  fat i :=
    if i < NUMBER_OF_BLOCKS then
      (file.getD (fatPos + 2 * i) (UInt8.ofNat (object.fat i))).toNat
        + 256 * (file.getD (fatPos + 2 * i + 1) (UInt8.ofNat (object.fat i / 256))).toNat
    else object.fat i
  mem x := if x < sizeofFileSystem then file.getD x (object.mem x) else object.mem x

/-- The bytes of the object apart from the FAT and the padding. -/
def Stored (x : Nat) : Prop := x < fatPos ∨ InTables x

/-- Two images agree in the object. -/
structure SameImage (fs fs' : Image) : Prop where
  fat : ∀ i < NUMBER_OF_BLOCKS, fs'.fat i = fs.fat i
  mem : ∀ x, Stored x → fs'.mem x = fs.mem x

theorem SameImage.trans {fs fs' fs'' : Image} (h : SameImage fs fs') (h' : SameImage fs' fs'') :
    SameImage fs fs'' :=
  ⟨fun i hi => (h'.fat i hi).trans (h.fat i hi), fun x hx => (h'.mem x hx).trans (h.mem x hx)⟩

theorem length_write (fs : Image) :
    (write_file_system_to_file fs).length = sizeofFileSystem := by
  unfold write_file_system_to_file
  rw [List.length_map, List.length_range]

theorem getD_write (fs : Image) (tail : List UInt8) (d : UInt8) {x : Nat}
    (hx : x < sizeofFileSystem) :
    (write_file_system_to_file fs ++ tail).getD x d = objectByte fs x := by
  rw [List.getD_append _ _ _ _ (by rw [length_write]; exact hx)]
  unfold write_file_system_to_file
  rw [List.getD_eq_getElem _ _ (by rw [List.length_map, List.length_range]; exact hx),
    List.getElem_map, List.getElem_range]

/-- **An image is read back as it was written**, from a file with anything behind it and into any
    object. -/
theorem same_loaded (fs object : Image) (tail : List UInt8)
    (hfat : ∀ i < NUMBER_OF_BLOCKS, fs.fat i < 2 ^ 16) : SameImage fs
      (read_file_system_from_file object (write_file_system_to_file fs ++ tail)) := by
  constructor
  · intro i hi
    have hword := hfat i hi
    have hbound : fatPos + 2 * i + 1 < rootDir := by
      unfold NUMBER_OF_BLOCKS at hi
      unfold fatPos rootDir
      omega
    have hsize : rootDir < sizeofFileSystem := by decide
    have hlow : objectByte fs (fatPos + 2 * i) = UInt8.ofNat (fs.fat i) := by
      unfold objectByte
      rw [if_pos ⟨by omega, by omega⟩, if_pos (by omega),
        show (fatPos + 2 * i - fatPos) / 2 = i by omega]
    have hhigh : objectByte fs (fatPos + 2 * i + 1) = UInt8.ofNat (fs.fat i / 256) := by
      unfold objectByte
      rw [if_pos ⟨by omega, by omega⟩, if_neg (by omega),
        show (fatPos + 2 * i + 1 - fatPos) / 2 = i by omega]
    unfold read_file_system_from_file
    simp only
    rw [if_pos hi, getD_write fs tail _ (by omega), getD_write fs tail _ (by omega), hlow, hhigh,
      UInt8.toNat_ofNat', UInt8.toNat_ofNat']
    omega
  · intro x hx
    have hlt : x < sizeofFileSystem := by
      unfold Stored InTables fatPos rootDir ROOT_ENTRIES sizeofDirectoryEntry dataPos sizeofFileSystem at hx
      unfold sizeofFileSystem
      omega
    have hout : ¬ (fatPos ≤ x ∧ x < rootDir) := by
      unfold Stored InTables rootDir dataPos at hx
      unfold rootDir
      omega
    unfold read_file_system_from_file
    simp only
    rw [if_pos hlt, getD_write fs tail _ hlt]
    unfold objectByte
    rw [if_neg hout]

/-! ## §2. Lookups. -/

/-- The bytes of an entry in the image. -/
theorem stored_entry {a i : Nat} (ha : IsSlot a) (hin : InImage a) (hi : i < sizeofDirectoryEntry) :
    Stored (a + i) := .inr (inTables_entry ha hin hi)

theorem strnEq_congr {m m' : Mem} {s : List UInt8} : ∀ {a n : Nat},
    (∀ x, a ≤ x → x < a + n → m' x = m x) → strnEq m' a n s = strnEq m a n s := by
  induction s with
  | nil =>
    intro a n h
    cases n with
    | zero => rfl
    | succ n =>
      show (m' a == 0) = (m a == 0)
      rw [h a (Nat.le_refl a) (by omega)]
  | cons c cs ih =>
    intro a n h
    cases n with
    | zero => rfl
    | succ n =>
      show (m' a == c && strnEq m' (a + 1) n cs) = (m a == c && strnEq m (a + 1) n cs)
      rw [h a (Nat.le_refl a) (by omega), ih fun x hx hx' => h x (by omega) (by omega)]

section Same

variable {fs fs' : Image} {dir a : Nat} {token : List UInt8} {path dirname : CString}

theorem SameImage.entry (h : SameImage fs fs') (ha : IsSlot a) (hin : InImage a) {i : Nat}
    (hi : i < sizeofDirectoryEntry) : fs'.mem (a + i) = fs.mem (a + i) :=
  h.mem _ (stored_entry ha hin hi)

theorem SameImage.live (h : SameImage fs fs') (ha : IsSlot a) (hin : InImage a) :
    live fs'.mem a = live fs.mem a :=
  congrArg (· != 0) (h.entry ha hin (i := 0) (by decide))

theorem SameImage.isNamed (h : SameImage fs fs') (ht : Terminated fs.mem) (ha : IsSlot a)
    (hin : InImage a) (htoken : 0 ∉ token) :
    isNamed fs'.mem token a = isNamed fs.mem token a := by
  have hname : strEq fs'.mem a token = strEq fs.mem a token := by
    refine strEq_congr (k := 8) htoken (fun x hx hx' => ?_) (ht a ha hin).1
    have hentry := h.entry ha hin (i := x - a) (by unfold sizeofDirectoryEntry; omega)
    rwa [Nat.add_sub_cancel' hx] at hentry
  have hattr : file_attributes fs'.mem a = file_attributes fs.mem a := h.entry ha hin (by decide)
  unfold FileSystem.isNamed
  rw [hname, hattr]

theorem SameImage.child (h : SameImage fs fs') (ht : Terminated fs.mem) (htable : IsTable dir)
    (hinside : TableInside dir) (htoken : 0 ∉ token) :
    child fs'.mem dir token = child fs.mem dir token := by
  have hslot : ∀ b ∈ table dir, IsSlot b := fun b hb => ⟨dir, htable, hb⟩
  have hfind : (table dir).find? (FileSystem.isNamed fs'.mem token)
      = (table dir).find? (FileSystem.isNamed fs.mem token) :=
    List.find?_congr fun b hb => h.isNamed ht (hslot b hb) (hinside.inImage hb) htoken
  unfold FileSystem.child
  rw [hfind]
  refine Option.map_congr fun b hres => ?_
  have hb := List.mem_of_find?_eq_some hres
  unfold tableOf first_block
  rw [h.entry (hslot b hb) (hinside.inImage hb) (by decide)]

/-- **A lookup sees the object only.** -/
theorem SameImage.find_directory (h : SameImage fs fs') (ht : Terminated fs.mem)
    (hc : Contained fs.mem) : find_directory fs' path = find_directory fs path := by
  rw [find_directory_eq, find_directory_eq]
  refine walk_congr fun before token behind d hts hd => ?_
  have htokens := tokens_no_nul path
  rw [hts] at htokens
  have hbefore : ∀ t ∈ before, t ≠ [] ∧ 0 ∉ t :=
    fun t ht => htokens t (List.mem_append_left _ ht)
  refine h.child ht (walk_isTable (.inl rfl) hd).1
    (walk_inside hc hbefore (.inl rfl) (.inl rfl) hd) (htokens token ?_).2
  simp

theorem find_inside (hc : Contained fs.mem) (h : find_directory fs path = some dir) :
    IsTable dir ∧ TableInside dir := by
  refine ⟨find_directory_isTable h, ?_⟩
  rw [find_directory_eq] at h
  exact walk_inside hc (fun t ht => tokens_no_nul path t ht) (.inl rfl) (.inl rfl) h

theorem SameImage.emptyEntry (h : SameImage fs fs') (htable : IsTable dir)
    (hinside : TableInside dir) : emptyEntry fs'.mem dir = emptyEntry fs.mem dir := by
  refine List.find?_congr fun b hb => ?_
  rw [show fs'.mem b = fs.mem b from
    h.entry (i := 0) ⟨dir, htable, hb⟩ (hinside.inImage hb) (by decide)]

theorem SameImage.createSlot (h : SameImage fs fs') (ht : Terminated fs.mem)
    (hc : Contained fs.mem) : createSlot fs' path = createSlot fs path := by
  rw [createSlot_eq, createSlot_eq, h.find_directory ht hc]
  refine Option.bind_congr fun dir hdir => ?_
  obtain ⟨htable, hinside⟩ := find_inside hc hdir
  exact h.emptyEntry htable hinside

theorem SameImage.removeTarget (h : SameImage fs fs') (ht : Terminated fs.mem)
    (hc : Contained fs.mem) : removeTarget fs' path dirname = removeTarget fs path dirname := by
  unfold FileSystem.removeTarget
  rw [h.find_directory ht hc]
  cases hdir : FileSystem.find_directory fs path with
  | none => rfl
  | some dir =>
    obtain ⟨htable, hinside⟩ := find_inside hc hdir
    refine List.find?_congr fun b hb => ?_
    have hentry := fun {i : Nat} => h.entry (i := i) ⟨dir, htable, hb⟩ (hinside.inImage hb)
    have hname : strnEq fs'.mem b MAX_FILENAME dirname.bytes
        = strnEq fs.mem b MAX_FILENAME dirname.bytes := by
      refine strnEq_congr fun x hx hx' => ?_
      unfold MAX_FILENAME at hx'
      have hbyte := hentry (i := x - b) (by unfold sizeofDirectoryEntry; omega)
      rwa [Nat.add_sub_cancel' hx] at hbyte
    unfold file_attributes
    rw [hname, hentry (by decide)]

/-- The entries of the root directory lie in the image. -/
theorem root_inImage (ha : a ∈ table rootDir) : IsSlot a ∧ InImage a :=
  ⟨⟨rootDir, .inl rfl, ha⟩, TableInside.inImage (.inl rfl) ha⟩

theorem SameImage.is_empty (h : SameImage fs fs') : is_empty fs'.mem a = is_empty fs.mem a := by
  unfold FileSystem.is_empty
  rw [Bool.eq_iff_iff, List.all_eq_true, List.all_eq_true]
  refine forall_congr' fun e => forall_congr' fun he => ?_
  obtain ⟨hslot, hin⟩ := root_inImage he
  unfold first_block
  rw [h.live hslot hin, h.entry hslot hin (by decide)]

end Same

/-! ## §3. Operations. -/

theorem freeBlockFrom_congr {fat fat' : Nat → Nat} {n : Nat} : ∀ {i : Nat},
    (∀ k, i ≤ k → k < i + n → fat' k = fat k) → freeBlockFrom fat' n i = freeBlockFrom fat n i := by
  induction n with
  | zero =>
    intro i _
    rfl
  | succ n ih =>
    intro i h
    unfold freeBlockFrom
    rw [h i (Nat.le_refl i) (by omega), ih fun k hk hk' => h k (by omega) (by omega)]

theorem writeByte_congr {m m' : Mem} {x : Nat} (a : Nat) (b : UInt8) (h : m' x = m x) :
    writeByte m' a b x = writeByte m a b x := by
  simp only [writeByte, h]

section Operations

variable {fs fs' : Image} {path dirname : CString} {tm_info : tm}

theorem SameImage.freeBlock (h : SameImage fs fs') : freeBlock fs'.fat = freeBlock fs.fat :=
  freeBlockFrom_congr fun k _ hk => h.fat k (by omega)

theorem SameImage.writeEntry (h : SameImage fs fs') (a : Nat) :
    SameImage (writeEntry fs a dirname tm_info) (writeEntry fs' a dirname tm_info) := by
  have hfree := h.freeBlock
  constructor
  · intro i hi
    rw [writeEntry_fat_eq, writeEntry_fat_eq, hfree]
    cases FileSystem.freeBlock fs.fat with
    | none => exact h.fat i hi
    | some k =>
      show Function.update fs'.fat k 0xFFF i = Function.update fs.fat k 0xFFF i
      rw [Function.update_apply, Function.update_apply, h.fat i hi]
  · intro x hx
    have hname : writeBytes fs'.mem a (padded MAX_FILENAME dirname.bytes) x
        = writeBytes fs.mem a (padded MAX_FILENAME dirname.bytes) x :=
      writeBytes_congr _ (h.mem x hx)
    unfold FileSystem.writeEntry
    rw [hfree]
    cases FileSystem.freeBlock fs.fat with
    | none =>
      exact writeBytes_congr _ (writeByte_congr _ _ (writeByte_congr _ _ hname))
    | some k =>
      exact writeBytes_congr _
        (writeByte_congr _ _ (writeByte_congr _ _ (writeByte_congr _ _ hname)))

theorem SameImage.erase (h : SameImage fs fs') (a : Nat) : SameImage (erase fs a) (erase fs' a) := by
  refine ⟨h.fat, fun x hx => ?_⟩
  show fill fs'.mem a sizeofDirectoryEntry 0 x = fill fs.mem a sizeofDirectoryEntry 0 x
  simp only [fill, h.mem x hx]

/-- **An operation sees the object only.** -/
theorem SameImage.create_directory (h : SameImage fs fs') (ht : Terminated fs.mem)
    (hc : Contained fs.mem) : SameImage (create_directory fs path dirname tm_info)
      (create_directory fs' path dirname tm_info) := by
  unfold FileSystem.create_directory
  rw [h.createSlot ht hc]
  cases FileSystem.createSlot fs path with
  | none => exact h
  | some a => exact h.writeEntry a

theorem SameImage.remove_directory (h : SameImage fs fs') (ht : Terminated fs.mem)
    (hc : Contained fs.mem) :
    SameImage (remove_directory fs path dirname) (remove_directory fs' path dirname) := by
  unfold FileSystem.remove_directory
  rw [h.removeTarget ht hc]
  cases FileSystem.removeTarget fs path dirname with
  | none => exact h
  | some a =>
    show SameImage (if FileSystem.is_empty fs.mem a then FileSystem.erase fs a else fs)
      (if FileSystem.is_empty fs'.mem a then FileSystem.erase fs' a else fs')
    rw [h.is_empty]
    split
    · exact h.erase a
    · exact h

end Operations

end SystemOS.Fat12.ImageFile
