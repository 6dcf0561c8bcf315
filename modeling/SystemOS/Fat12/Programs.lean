/-
  SystemOS.Fat12.Programs — the two programs around the image.

  `makeFileSystem` writes a fresh image into a file, and a call of `fileSystemOper` reads the file
  into an object on its stack, works on it and, after `mkdir` and `rmdir`, writes it back.
-/
import SystemOS.Fat12.ImageFile

namespace SystemOS.Fat12.Programs

open SystemOS.Lib.ByteMemory SystemOS.Lib.Strings SystemOS.Lib.Lines SystemOS.Lib.Decimal
open SystemOS.Fat12.FileSystem SystemOS.Fat12.Bounds SystemOS.Fat12.Space SystemOS.Fat12.Times
open SystemOS.Fat12.ImageFile

/-! ## §1. What the operations print. -/

def text (s : String) : Bytes := s.toUTF8.toList

def print_file_type (file_type : UInt8) : Bytes :=
  if file_type = 0x01 then text "Dir" else text "File"

def print_permissions (file_attributes : UInt8) : Bytes :=
  (if file_attributes &&& 0x01 ≠ 0 then text "R" else text "-")
    ++ (if file_attributes &&& 0x02 ≠ 0 then text "W" else text "-") ++ text " "

/-- One round of the loop in `list_directory`. -/
def lineText (m : Mem) (a : Nat) : Bytes :=
  let entry := line m a
  print_file_type entry.file_type ++ text " " ++ print_permissions entry.file_attributes
    ++ print_date m (a + 26) ++ print_time m (a + 28)
    ++ (if entry.extension ≠ [] then entry.filename ++ text "." ++ entry.extension ++ text " "
        else entry.filename ++ text " ")
    ++ (if entry.isProtected then text "(protected)" else []) ++ text "\n"

def list_directory_text (fs : Image) (path : CString) : Bytes :=
  match find_directory fs path with
  | none => text "Directory not found: " ++ path.bytes ++ text "\n"
  | some dir => ((table dir).filter (live fs.mem)).flatMap (lineText fs.mem)

def create_directory_text (fs : Image) (path dirname : CString) : Bytes :=
  let parent_dir := if path.bytes = [backslash] then some rootDir else find_directory fs path
  match parent_dir with
  | none => text "Parent directory not found: " ++ path.bytes ++ text "\n"
  | some dir =>
    match emptyEntry fs.mem dir with
    | some _ => text "Directory created: " ++ path.bytes ++ text "\\" ++ dirname.bytes ++ text "\n"
    | none =>
      text "No space available to create directory within " ++ path.bytes ++ text ".\n"

def remove_directory_text (fs : Image) (path dirname : CString) : Bytes :=
  let target := path.bytes ++ text "/" ++ dirname.bytes ++ text "\n"
  match find_directory fs path with
  | none => text "Parent directory not found: " ++ path.bytes ++ text "\n"
  | some _ =>
    match removeTarget fs path dirname with
    | some a =>
      if is_empty fs.mem a then text "Directory removed: " ++ target
      else text "Directory is not empty: " ++ target
    | none => text "Directory not found: " ++ target

/-- The string at `a`; the object ends it at the latest. -/
def stringAt (m : Mem) (a : Nat) : Bytes :=
  (bytesAt m a (sizeofFileSystem - a)).takeWhile (· ≠ 0)

/-- The `int` at `a`. -/
def intAt (m : Mem) (a : Nat) : Int := (BitVec.ofNat 32 (readWord m a)).toInt

/-- The figures of `dump_file_system_info`. -/
structure Figures where
  number_of_blocks : Int
  block_size : Int
  occupied_blocks : Nat
  free_blocks : Int
  files : Nat
  directories : Nat
  /-- Block, name and extension of each entry of the root directory. -/
  blocks : List (UInt8 × Bytes × Bytes)

def figures (fs : Image) : Figures :=
  let entries := (table rootDir).filter (live fs.mem)
  { number_of_blocks := intAt fs.mem 4
    block_size := intAt fs.mem 0
    occupied_blocks := occupied fs.fat
    free_blocks := intAt fs.mem 4 - occupied fs.fat
    files := entries.countP fun a => file_attributes fs.mem a != 0x10
    directories := entries.countP fun a => file_attributes fs.mem a == 0x10
    blocks := entries.map fun a =>
      (first_block fs.mem a, stringAt fs.mem a, stringAt fs.mem (a + 8)) }

def printed (f : Figures) : Bytes :=
  text "File System Information:\n"
    ++ text "Block Count: " ++ decimal f.number_of_blocks
    ++ text "\nBlock Size: " ++ decimal f.block_size ++ text " bytes"
    ++ text "\nOccupied Blocks: " ++ decimal f.occupied_blocks
    ++ text "\nFree Blocks: " ++ decimal f.free_blocks
    ++ text "\nNumber of Files: " ++ decimal f.files
    ++ text "\nNumber of Directories: " ++ decimal f.directories
    ++ text "\n\nOccupied Blocks Information:\n"
    ++ f.blocks.flatMap fun (block_number, filename, extension) =>
        text "Block " ++ digits block_number.toNat ++ text ": " ++ filename
          ++ text "." ++ extension ++ text "\n"

def dump_file_system_info (fs : Image) : Bytes := printed (figures fs)

/-! ## §2. `fileSystemOper`. -/

/-- What a call prints, and its exit status. -/
structure Result where
  stdout : Bytes
  stderr : Bytes
  status : Nat

def success (stdout : Bytes) : Result := ⟨stdout, [], 0⟩

def failure (stderr : Bytes) : Result := ⟨[], stderr, 1⟩

/-- The replacement of '/' in a parameter. -/
def toBackslashes (s : CString) : CString where
  bytes := s.bytes.map fun c => if c = 47 then backslash else c
  no_nul := by
    intro h
    obtain ⟨c, hc, hnul⟩ := List.mem_map.mp h
    split at hnul
    · exact absurd hnul (by decide)
    · exact s.no_nul (hnul ▸ hc)

def usage (argv0 operation : CString) (parameters : String) : Result :=
  failure (text "Usage: " ++ argv0.bytes ++ text " " ++ operation.bytes ++ text parameters)

/-- The branches of `main`: the result, and the image when it is written back. -/
def operate (fs : Image) (argv0 operation : CString) (params : List CString) (now : tm) :
    Result × Option Image :=
  if operation.bytes = text "dir" then
    match params with
    | [path] => (success (list_directory_text fs path), none)
    | _ => (usage argv0 operation " <path>\n", none)
  else if operation.bytes = text "mkdir" then
    match params with
    | [path, dirname] =>
      (success (create_directory_text fs path dirname), some (create_directory fs path dirname now))
    | _ => (usage argv0 operation " <path> <dirname>\n", none)
  else if operation.bytes = text "rmdir" then
    match params with
    | [path, dirname] =>
      (success (remove_directory_text fs path dirname), some (remove_directory fs path dirname))
    | _ => (usage argv0 operation " <path> <dirname>\n", none)
  else if operation.bytes = text "dumpe2fs" then (success (dump_file_system_info fs), none)
  else if operation.bytes = text "write" then (success [], none)
  else (failure (text "Unknown operation: " ++ operation.bytes ++ text "\n"), none)

/-- A call: its arguments, what the stack holds where the object will lie, and the time. -/
structure Call where
  argv : List CString
  object : Image
  now : tm

/-- `argc < 3`. -/
def tooFew (argv : List CString) : Result :=
  failure (text "Usage: " ++ (argv.head?.elim (text "(null)") CString.bytes)
    ++ text " <file_system.data> <operation> [parameters]\n")

/-- `main`, with the contents of the file `argv[1]`. -/
def main (call : Call) (file : Option Bytes) : Result × Option Bytes :=
  match call.argv with
  | argv0 :: _ :: operation :: params =>
    match file with
    | none => (failure (text "Failed to open file: No such file or directory\n"), none)
    | some contents =>
      let fs := read_file_system_from_file call.object contents
      let r := operate fs argv0 operation (params.map toBackslashes) call.now
      (r.1, some (r.2.elim contents write_file_system_to_file))
  | argv => (tooFew argv, file)

/-! ## §3. `makeFileSystem`. -/

/-- The block sizes that `main` accepts. -/
inductive BlockSize
  | half
  | one

def BlockSize.bytes : BlockSize → Nat
  | .half => 512
  | .one => 1024

def BlockSize.required_size : BlockSize → Nat
  | .half => 2 * 1024 * 1024
  | .one => 4 * 1024 * 1024

/-- The words of the super block. -/
def superBlock (m : Mem) (block_size : Nat) : Mem :=
  let fat_pos := ROOT_ENTRIES * sizeofDirectoryEntry / BYTES_PER_SECTOR
  let m := writeWord m 0 block_size
  let m := writeWord m 4 NUMBER_OF_BLOCKS
  let m := writeWord m 8 0
  let m := writeWord m 12 fat_pos
  writeWord m 16 (fat_pos + NUMBER_OF_BLOCKS * 2 / BYTES_PER_SECTOR)

def initialize_file_system (object : Image) (block_size : Nat) : Image where
  fat _ := 0x000
  mem := fill (fill (superBlock object.mem block_size) rootDir
    (ROOT_ENTRIES * sizeofDirectoryEntry) 0) dataPos (NUMBER_OF_BLOCKS * sizeofBlock) 0

/-- The file that `makeFileSystem` leaves: the image, padded to the required size. -/
def makeFileSystem (object : Image) (k : BlockSize) : Bytes :=
  let contents := write_file_system_to_file (initialize_file_system object k.bytes)
  contents ++ List.replicate (k.required_size - contents.length) 0

/-! ## §4. The operation of a call. -/

/-- The operation in the branches that write the file. -/
def operationOf (operation : CString) (params : List CString) (now : tm) : Option Op :=
  if operation.bytes = text "dir" then none
  else if operation.bytes = text "mkdir" then
    match params with
    | [path, dirname] => some (.create path dirname now)
    | _ => none
  else if operation.bytes = text "rmdir" then
    match params with
    | [path, dirname] => some (.remove path dirname)
    | _ => none
  else none

def Call.op (call : Call) : Option Op :=
  match call.argv with
  | _ :: _ :: operation :: params =>
    operationOf operation (params.map toBackslashes) call.now
  | _ => none

end SystemOS.Fat12.Programs
