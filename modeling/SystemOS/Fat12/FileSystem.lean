/-
  SystemOS.Fat12.FileSystem — the FAT-12 image and its directory operations.

  Addresses are offsets from the start of the `FileSystem` object (LP64 layout): 20 bytes of super
  block, the FAT, the root directory at 16404 and, after 4 bytes of padding, the array `data` at
  23576.  The FAT is kept apart as a function from indices to entries, since no pointer reaches it;
  directory entries are bytes in memory, and the memory behind the image is whatever it is, because
  the tables of the last blocks run past the end.

  Paths use backslashes, as `main` has rewritten them.
-/
import SystemOS.Lib.Strings
import SystemOS.Lib.Transition

namespace SystemOS.Fat12.FileSystem

open SystemOS.Lib.ByteMemory SystemOS.Lib.Strings SystemOS.Lib.Transition

/-! ## §1. Layout. -/

def BYTES_PER_SECTOR : Nat := 512

def ROOT_ENTRIES : Nat := 224

def MAX_FILENAME : Nat := 8

def MAX_EXTENSION : Nat := 3

def NUMBER_OF_BLOCKS : Nat := 8192

def sizeofDirectoryEntry : Nat := 32

/-- Offset of `root_dir`. -/
def rootDir : Nat := 16404

/-- Offset of `data`. -/
def dataPos : Nat := 23576

/-- `sizeof(FileSystem)`: `sizeof(Block)` is 16. -/
def sizeofFileSystem : Nat := 154648

structure Image where
  fat : Nat → Nat
  mem : Mem

/-! ## §2. Directory entries. -/

/-- `entry->filename[0]` is not 0. -/
def live (m : Mem) (a : Nat) : Bool := m a != 0

def file_attributes (m : Mem) (a : Nat) : UInt8 := m (a + 30)

/-- `entry->first_block_number[0]`. -/
def first_block (m : Mem) (a : Nat) : UInt8 := m (a + 20)

/-- Addresses of `n` entries from `a` on. -/
def entriesFrom : Nat → Nat → List Nat
  | 0, _ => []
  | n + 1, a => a :: entriesFrom n (a + sizeofDirectoryEntry)

/-- The entries that the loops look at, for a table at `dir`. -/
def table (dir : Nat) : List Nat := entriesFrom ROOT_ENTRIES dir

/-- The table that an entry refers to. -/
def tableOf (m : Mem) (a : Nat) : Nat := dataPos + (first_block m a).toNat * BYTES_PER_SECTOR

/-! ## §3. Lookup. -/

/-- The test of `find_directory`. -/
def isNamed (m : Mem) (token : List UInt8) (a : Nat) : Bool :=
  strEq m a token && file_attributes m a == 0x10

/-- One token of the path: the table of the first entry of that name. -/
def child (m : Mem) (dir : Nat) (token : List UInt8) : Option Nat :=
  ((table dir).find? (isNamed m token)).map (tableOf m)

def walk (m : Mem) : Nat → List (List UInt8) → Option Nat
  | dir, [] => some dir
  | dir, token :: tokens =>
    match child m dir token with
    | some next => walk m next tokens
    | none => none

def backslash : UInt8 := 92

/-- The tokens that `strtok` cuts a path into. -/
def tokens (path : CString) : List (List UInt8) := words backslash path.bytes

def find_directory (fs : Image) (path : CString) : Option Nat :=
  if path.bytes = [backslash] then some rootDir else walk fs.mem rootDir (tokens path)

/-! ## §4. `create_directory`. -/

/-- The fields of `struct tm` that are read; `localtime` fills in no negative ones here. -/
structure tm where
  tm_year : UInt32
  tm_mon : UInt32
  tm_mday : UInt32
  tm_hour : UInt32
  tm_min : UInt32
  tm_sec : UInt32

/-- The first empty entry of a table. -/
def emptyEntry (m : Mem) (dir : Nat) : Option Nat := (table dir).find? fun a => m a == 0

/-- The first FAT entry equal to 0x000, from index `i` on. -/
def freeBlockFrom (fat : Nat → Nat) : Nat → Nat → Option Nat
  | 0, _ => none
  | n + 1, i => if fat i = 0x000 then some i else freeBlockFrom fat n (i + 1)

def freeBlock (fat : Nat → Nat) : Option Nat := freeBlockFrom fat NUMBER_OF_BLOCKS 0

/-- Date and time as `create_directory` encodes them. -/
def writeTimes (m : Mem) (a : Nat) (tm_info : tm) : Mem :=
  let year : UInt32 := tm_info.tm_year + 1900 - 1980
  let month : UInt32 := tm_info.tm_mon + 1
  let day : UInt32 := tm_info.tm_mday
  let hour : UInt32 := tm_info.tm_hour
  let minute : UInt32 := tm_info.tm_min
  let second : UInt32 := tm_info.tm_sec / 2
  writeBytes m (a + 26)
    [((day &&& (0x1F : UInt32)) ||| ((month &&& 0x07) <<< 5)).toUInt8,
     (((month &&& 0x08) >>> 3) ||| ((year &&& 0x7F) <<< 1)).toUInt8,
     ((second &&& (0x1F : UInt32)) ||| ((minute &&& 0x07) <<< 5)).toUInt8,
     (((minute &&& 0x38) >>> 3) ||| ((hour &&& 0x1F) <<< 3)).toUInt8]

/-- The entry written at `a`, and the FAT. -/
def writeEntry (fs : Image) (a : Nat) (dirname : CString) (tm_info : tm) : Image :=
  let m := writeBytes fs.mem a (padded MAX_FILENAME dirname.bytes)
  let m := writeByte m (a + 30) 0x10
  let m := writeByte m (a + 31) 0x01
  match freeBlock fs.fat with
  | some i =>
    -- only byte 0 of the two-byte field is written
    let m := writeByte m (a + 20) (UInt8.ofNat i)
    { fat := Function.update fs.fat i 0xFFF, mem := writeTimes m a tm_info }
  | none => { fat := fs.fat, mem := writeTimes m a tm_info }

/-- The entry that `create_directory` writes, if there is one. -/
def createSlot (fs : Image) (path : CString) : Option Nat :=
  let parent_dir := if path.bytes = [backslash] then some rootDir else find_directory fs path
  match parent_dir with
  | some dir => emptyEntry fs.mem dir
  | none => none

def create_directory (fs : Image) (path dirname : CString) (tm_info : tm) : Image :=
  match createSlot fs path with
  | some a => writeEntry fs a dirname tm_info
  | none => fs

/-! ## §5. `remove_directory` and `list_directory`. -/

/-- The entry that `remove_directory` selects. -/
def removeTarget (fs : Image) (path dirname : CString) : Option Nat :=
  match find_directory fs path with
  | some dir => (table dir).find? fun a =>
      strnEq fs.mem a MAX_FILENAME dirname.bytes && file_attributes fs.mem a == 0x10
  | none => none

/-- `target_dir - fs->root_dir`; a table in `data` is 4 bytes off the grid of `root_dir`, and the
    compiled difference rounds down. -/
def position (target : Nat) : Nat := (target - rootDir) / sizeofDirectoryEntry

/-- The emptiness test of `remove_directory`: a scan of the root directory. -/
def is_empty (m : Mem) (target : Nat) : Bool :=
  (table rootDir).all fun e =>
    !(live m e && e != target && (first_block m e).toNat == position target)

def erase (fs : Image) (a : Nat) : Image :=
  { fs with mem := fill fs.mem a sizeofDirectoryEntry 0 }

def remove_directory (fs : Image) (path dirname : CString) : Image :=
  match removeTarget fs path dirname with
  | some target => if is_empty fs.mem target then erase fs target else fs
  | none => fs

/-- What `list_directory` prints of an entry, as the bytes it is printed from. -/
structure Line where
  file_type : UInt8
  file_attributes : UInt8
  creation_date : List UInt8
  creation_time : List UInt8
  filename : List UInt8
  extension : List UInt8
  isProtected : Bool
  deriving DecidableEq

def bytesAt (m : Mem) (a n : Nat) : List UInt8 := (List.range n).map fun i => m (a + i)

def line (m : Mem) (a : Nat) : Line where
  file_type := m (a + 31)
  file_attributes := file_attributes m a
  creation_date := bytesAt m (a + 26) 2
  creation_time := bytesAt m (a + 28) 2
  filename := (bytesAt m a MAX_FILENAME).takeWhile (· ≠ 0)
  extension := (bytesAt m (a + 8) MAX_EXTENSION).takeWhile (· ≠ 0)
  isProtected := m (a + 15) != 0

/-- The live entries of a table, as printed. -/
def listing (m : Mem) (dir : Nat) : List Line := ((table dir).filter (live m)).map (line m)

def list_directory (fs : Image) (path : CString) : Option (List Line) :=
  (find_directory fs path).map (listing fs.mem)

/-! ## §6. Runs. -/

/-- The bytes of `root_dir` and of `data`, without the padding between them. -/
def InTables (x : Nat) : Prop :=
  rootDir ≤ x ∧ x < rootDir + ROOT_ENTRIES * sizeofDirectoryEntry
    ∨ dataPos ≤ x ∧ x < sizeofFileSystem

/-- What `initialize_file_system` leaves: a free FAT, and zeros in the root directory and the data. -/
def Initialized (fs : Image) : Prop := (∀ i, fs.fat i = 0x000) ∧ ∀ x, InTables x → fs.mem x = 0

inductive Op
  | create (path dirname : CString) (tm_info : tm)
  | remove (path dirname : CString)

/-- An image with the history of its entries: which FAT entry their creation has marked. -/
structure Volume where
  fs : Image
  marks : Nat → Option Nat

def Volume.apply (v : Volume) : Op → Volume
  | .create path dirname tm_info =>
    { fs := create_directory v.fs path dirname tm_info
      marks := match createSlot v.fs path with
        | some a => Function.update v.marks a (freeBlock v.fs.fat)
        | none => v.marks }
  | .remove path dirname =>
    { fs := remove_directory v.fs path dirname
      marks := match removeTarget v.fs path dirname with
        | some a => if is_empty v.fs.mem a then Function.update v.marks a none else v.marks
        | none => v.marks }

def fatSystem : System Volume Op where
  init v := Initialized v.fs ∧ v.marks = fun _ => none
  step v op v' := v' = v.apply op

/-! ## §7. Sample data. -/

/-- An image in memory that is 0 everywhere. -/
def blank : Volume := ⟨⟨fun _ => 0x000, fun _ => 0⟩, fun _ => none⟩

/-- 1900-01-00, midnight. -/
def midnight : tm := ⟨0, 0, 0, 0, 0, 0⟩

def root : CString := ⟨[backslash], by decide⟩

def nameA : CString := ⟨[65], by decide⟩

def nameB : CString := ⟨[66], by decide⟩

def pathA : CString := ⟨[backslash, 65], by decide⟩

def pathB : CString := ⟨[backslash, 66], by decide⟩

theorem blank_init : fatSystem.init blank := ⟨⟨fun _ => rfl, fun _ _ => rfl⟩, rfl⟩

end SystemOS.Fat12.FileSystem
