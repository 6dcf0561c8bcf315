/-
  SystemOS.Fat12.Sessions — calls of the two programs, one after another.

  Between the calls there is the file only, and each call has an object of its own on a stack that
  holds anything.  As long as the blocks are low, this is one image that stays in memory.

  Main results:
    * `session_refines` — a session prints what the operations on one image print, and leaves the
      image in the file.
    * `session_length`  — the first change cuts the file down to the object.
    * `dump_figures`    — what `dumpe2fs` counts after a session.
-/
import SystemOS.Fat12.Ascent
import SystemOS.Fat12.Programs
import SystemOS.Lib.Utf8

namespace SystemOS.Fat12.Sessions

open SystemOS.Lib.ByteMemory SystemOS.Lib.Strings SystemOS.Lib.Transition SystemOS.Lib.Lines
open SystemOS.Lib.Decimal SystemOS.Lib.Utf8
open SystemOS.Fat12.FileSystem SystemOS.Fat12.Tables SystemOS.Fat12.Blocks SystemOS.Fat12.Bounds
open SystemOS.Fat12.Space SystemOS.Fat12.Times SystemOS.Fat12.Ascent SystemOS.Fat12.ImageFile
open SystemOS.Fat12.Programs

/-! ## §1. The image that stays in memory. -/

/-- A call on an image in memory. -/
def onVolume (call : Call) (v : Volume) : Result × Volume :=
  let answer := match call.argv with
    | argv0 :: _ :: operation :: params =>
      (operate v.fs argv0 operation (params.map toBackslashes) call.now).1
    | argv => tooFew argv
  (answer, call.op.elim v v.apply)

/-- The image of a new file, in memory that is 0 elsewhere. -/
def fresh (k : BlockSize) : Volume :=
  ⟨initialize_file_system ⟨fun _ => 0x000, fun _ => 0⟩ k.bytes, fun _ => none⟩

/-- The call gives out a low block only. -/
def Fits (v : Volume) (call : Call) : Prop := ∀ op, call.op = some op → BlockFits v.fs op

/-! ## §2. What is printed depends on the object only. -/

section Same

variable {fs fs' : Image} {m m' : Mem} {dir a k : Nat} {path dirname argv0 op : CString}
  {params : List CString} {now : tm}

theorem bytesAt_congr {n : Nat} (h : ∀ i < n, m' (a + i) = m (a + i)) :
    bytesAt m' a n = bytesAt m a n :=
  List.map_congr_left fun i hi => h i (List.mem_range.mp hi)

theorem lineText_congr (h : ∀ i < sizeofDirectoryEntry, m' (a + i) = m (a + i)) :
    lineText m' a = lineText m a := by
  have hbytes : ∀ k n, k + n ≤ sizeofDirectoryEntry → bytesAt m' (a + k) n = bytesAt m (a + k) n := by
    intro k n hk
    refine bytesAt_congr fun i hi => ?_
    rw [Nat.add_assoc]
    exact h _ (by omega)
  have hline : line m' a = line m a := by
    unfold line file_attributes
    rw [h 31 (by decide), h 30 (by decide), h 15 (by decide), hbytes 26 2 (by decide),
      hbytes 28 2 (by decide), hbytes 8 MAX_EXTENSION (by decide),
      show bytesAt m' a MAX_FILENAME = bytesAt m a MAX_FILENAME from hbytes 0 8 (by decide)]
  have hdate : print_date m' (a + 26) = print_date m (a + 26) := by
    unfold print_date readDate
    rw [show m' (a + 26 + 1) = m (a + 26 + 1) from h 27 (by decide), h 26 (by decide)]
  have htime : print_time m' (a + 28) = print_time m (a + 28) := by
    unfold print_time readTime
    rw [show m' (a + 28 + 1) = m (a + 28 + 1) from h 29 (by decide), h 28 (by decide)]
  unfold lineText
  rw [hline, hdate, htime]

/-- The entries of a table inside the image are the same. -/
theorem table_slots (htable : IsTable dir) (hinside : TableInside dir) (ha : a ∈ table dir) :
    IsSlot a ∧ InImage a :=
  ⟨⟨dir, htable, ha⟩, hinside.inImage ha⟩

theorem same_entries (h : SameImage fs fs') (htable : IsTable dir)
    (hinside : TableInside dir) :
    (table dir).filter (live fs'.mem) = (table dir).filter (live fs.mem) :=
  List.filter_congr fun _ ha =>
    h.live (table_slots htable hinside ha).1 (table_slots htable hinside ha).2

theorem same_list (h : SameImage fs fs') (ht : Terminated fs.mem)
    (hc : Contained fs.mem) : list_directory_text fs' path = list_directory_text fs path := by
  unfold list_directory_text
  rw [h.find_directory ht hc]
  cases hdir : find_directory fs path with
  | none => rfl
  | some dir =>
    obtain ⟨htable, hinside⟩ := find_inside hc hdir
    show ((table dir).filter (live fs'.mem)).flatMap (lineText fs'.mem)
      = ((table dir).filter (live fs.mem)).flatMap (lineText fs.mem)
    rw [same_entries h htable hinside]
    refine List.flatMap_congr fun a ha => lineText_congr fun i hi => ?_
    obtain ⟨hslot, hin⟩ := table_slots htable hinside (List.mem_filter.mp ha).1
    exact h.entry hslot hin hi

/-- The parent that `create_directory` works in is the directory of the path. -/
theorem parent_eq (fs : Image) (path : CString) :
    (if path.bytes = [backslash] then some rootDir else find_directory fs path)
      = find_directory fs path := by
  unfold find_directory
  split <;> rfl

theorem same_create (h : SameImage fs fs') (ht : Terminated fs.mem)
    (hc : Contained fs.mem) :
    create_directory_text fs' path dirname = create_directory_text fs path dirname := by
  unfold create_directory_text
  simp only [parent_eq, h.find_directory ht hc]
  cases hdir : find_directory fs path with
  | none => rfl
  | some dir =>
    obtain ⟨htable, hinside⟩ := find_inside hc hdir
    simp only [h.emptyEntry htable hinside]

theorem same_remove (h : SameImage fs fs') (ht : Terminated fs.mem)
    (hc : Contained fs.mem) :
    remove_directory_text fs' path dirname = remove_directory_text fs path dirname := by
  unfold remove_directory_text
  simp only [h.find_directory ht hc, h.removeTarget ht hc, h.is_empty]

/-- A string that a NUL in the object ends. -/
theorem stringAt_eq (hnul : m (a + k) = 0) (hin : a + k < sizeofFileSystem) :
    stringAt m a = (bytesAt m a k).takeWhile (· ≠ 0) := by
  have hsplit : bytesAt m a (sizeofFileSystem - a)
      = bytesAt m a k ++ m (a + k) :: bytesAt m (a + (k + 1)) (sizeofFileSystem - a - (k + 1)) := by
    obtain ⟨n, hn⟩ := Nat.exists_eq_add_of_le (show k + 1 ≤ sizeofFileSystem - a by omega)
    rw [hn, Nat.add_sub_cancel_left]
    unfold bytesAt
    rw [List.range_add, List.map_append, List.range_succ, List.map_append, List.append_assoc]
    simp [Function.comp_def, Nat.add_assoc]
  unfold stringAt
  rw [hsplit, hnul, List.takeWhile_append]
  split
  · rw [List.takeWhile_cons_of_neg (by simp), List.append_nil]
    exact (List.takeWhile_prefix _).eq_of_length ‹_› |>.symm
  · rfl

theorem same_dump (h : SameImage fs fs') (ht : Terminated fs.mem) :
    dump_file_system_info fs' = dump_file_system_info fs := by
  have hword : ∀ a, a + 4 ≤ fatPos → intAt fs'.mem a = intAt fs.mem a := by
    intro a ha
    unfold intAt
    rw [readWord_congr fun x _ hx => h.mem x (.inl (by omega))]
  have hoccupied : occupied fs'.fat = occupied fs.fat := by
    refine congrArg Finset.card (Finset.filter_congr fun i hi => ?_)
    rw [h.fat i (Finset.mem_range.mp hi)]
  have hroot : ∀ a ∈ (table rootDir).filter (live fs.mem), IsSlot a ∧ InImage a := fun a ha =>
    root_inImage (List.mem_filter.mp ha).1
  have hattr : ∀ a ∈ (table rootDir).filter (live fs.mem),
      file_attributes fs'.mem a = file_attributes fs.mem a := fun a ha =>
    h.entry (hroot a ha).1 (hroot a ha).2 (by decide)
  have hblocks : ((table rootDir).filter (live fs.mem)).map (fun a =>
        (first_block fs'.mem a, stringAt fs'.mem a, stringAt fs'.mem (a + 8)))
      = ((table rootDir).filter (live fs.mem)).map fun a =>
        (first_block fs.mem a, stringAt fs.mem a, stringAt fs.mem (a + 8)) := by
    refine List.map_congr_left fun a ha => ?_
    obtain ⟨hslot, hin⟩ := hroot a ha
    have hnul := (ht a hslot hin).1
    have hbyte := fun {i : Nat} => h.entry (i := i) hslot hin
    unfold InImage sizeofDirectoryEntry at hin
    have hname : stringAt fs'.mem a = stringAt fs.mem a := by
      rw [stringAt_eq (k := 8) (by rw [hbyte (by decide)]; exact hnul) (by omega),
        stringAt_eq hnul (by omega)]
      refine congrArg _ (bytesAt_congr fun i hi => hbyte ?_)
      unfold sizeofDirectoryEntry
      omega
    have hextension : stringAt fs'.mem (a + 8) = stringAt fs.mem (a + 8) := by
      rw [stringAt_eq (k := 0) (by rw [Nat.add_zero, hbyte (by decide)]; exact hnul) (by omega),
        stringAt_eq (k := 0) hnul (by omega)]
      rfl
    unfold first_block
    rw [hname, hextension, hbyte (by decide)]
  unfold dump_file_system_info figures
  simp only [same_entries h (.inl rfl) (.inl rfl), hword 0 (by decide), hword 4 (by decide),
    hoccupied, hblocks]
  rw [List.countP_congr fun a ha => by rw [hattr a ha],
    List.countP_congr (p := fun a => file_attributes fs'.mem a == 0x10) fun a ha => by
      rw [hattr a ha]]

/-- **A call answers alike on images that agree in the object.** -/
theorem same_answer (h : SameImage fs fs') (ht : Terminated fs.mem) (hc : Contained fs.mem) :
    (operate fs' argv0 op params now).1 = (operate fs argv0 op params now).1 := by
  unfold operate
  split_ifs
  · split
    · exact congrArg success (same_list h ht hc)
    · rfl
  · split
    · exact congrArg success (same_create h ht hc)
    · rfl
  · split
    · exact congrArg success (same_remove h ht hc)
    · rfl
  · exact congrArg success (same_dump h ht)
  · rfl
  · rfl

end Same

/-! ## §3. One call. -/

variable {v : Volume} {file : Option Bytes} {call : Call} {calls : List Call} {object : Image}
  {k : BlockSize}

/-- What is written back is the image after the operation. -/
theorem saved_eq (fs : Image) (argv0 op : CString) (params : List CString) (now : tm)
    (marks : Nat → Option Nat) : (operate fs argv0 op params now).2
      = (operationOf op params now).map fun o => (Volume.apply ⟨fs, marks⟩ o).fs := by
  unfold operate operationOf
  split_ifs
  · split <;> rfl
  · split <;> rfl
  · split <;> rfl
  · rfl
  · rfl
  · rfl

theorem same_apply {fs' : Image} (h : SameImage v.fs fs') (ht : Terminated v.fs.mem)
    (hc : Contained v.fs.mem) (marks : Nat → Option Nat) (op : Op) :
    SameImage (v.apply op).fs (Volume.apply ⟨fs', marks⟩ op).fs := by
  cases op with
  | create path dirname tm_info => exact h.create_directory ht hc
  | remove path dirname => exact h.remove_directory ht hc

/-- FAT entries are 16-bit words. -/
def FatWords (fs : Image) : Prop := ∀ i < NUMBER_OF_BLOCKS, fs.fat i < 2 ^ 16

theorem fatWords_step (h : FatWords v.fs) (op : Op) : FatWords (v.apply op).fs := by
  rcases apply_cases v op with heq | ⟨path, dirname, tm_info, a, -, -, heq⟩ |
    ⟨path, dirname, a, -, -, -, heq⟩ <;> rw [heq]
  · exact h
  · intro i hi
    rcases writeEntry_fat v a dirname tm_info with hfat | ⟨j, -, hfat⟩ <;> simp only [hfat]
    · exact h i hi
    · rw [Function.update_apply]
      split
      · decide
      · exact h i hi
  · exact h

/-- The file holds the image, and lookups in the image stay inside. -/
structure Holds (file : Option Bytes) (v : Volume) : Prop where
  loads : ∃ contents, file = some contents
    ∧ ∀ object, SameImage v.fs (read_file_system_from_file object contents)
  terminated : Terminated v.fs.mem
  contained : Contained v.fs.mem
  words : FatWords v.fs

/-- **One call on a file** that holds the image is the call on the image. -/
theorem main_refines (h : Holds file v) (hfits : Fits v call) :
    (main call file).1 = (onVolume call v).1 ∧ Holds (main call file).2 (onVolume call v).2 := by
  obtain ⟨⟨contents, rfl, hloads⟩, ht, hc, hw⟩ := h
  have hstay : Holds (some contents) v := ⟨⟨contents, rfl, hloads⟩, ht, hc, hw⟩
  obtain ⟨argv, object, now⟩ := call
  rcases argv with _ | ⟨argv0, _ | ⟨filename, _ | ⟨operation, params⟩⟩⟩
  · exact ⟨rfl, hstay⟩
  · exact ⟨rfl, hstay⟩
  · exact ⟨rfl, hstay⟩
  · have hsame := hloads object
    refine ⟨same_answer hsame ht hc, ?_⟩
    unfold main onVolume Call.op
    simp only
    rw [saved_eq _ _ _ _ _ v.marks]
    cases hop : operationOf operation (params.map toBackslashes) now with
    | none => exact hstay
    | some op =>
      have hafter := same_apply hsame ht hc v.marks op
      have hwords := fatWords_step hw op
      rw [Option.map_some, Option.elim_some, Option.elim_some]
      refine ⟨⟨_, rfl, fun object' => ?_⟩, terminated_step op ht,
        contained_step hc (hfits op hop), hwords⟩
      -- what is written has nothing behind the object
      have hfat : ∀ i < NUMBER_OF_BLOCKS, (Volume.apply
          ⟨read_file_system_from_file object contents, v.marks⟩ op).fs.fat i < 2 ^ 16 := by
        intro i hi
        rw [hafter.fat i hi]
        exact hwords i hi
      have hloaded := same_loaded _ object' [] hfat
      rw [List.append_nil] at hloaded
      exact hafter.trans hloaded

/-! ## §4. A new file. -/

theorem superBlock_congr (m m' : Mem) (block_size : Nat) {x : Nat} (hx : x < fatPos) :
    superBlock m' block_size x = superBlock m block_size x := by
  unfold fatPos at hx
  unfold superBlock writeWord
  split_ifs
  · rfl
  · rfl
  · rfl
  · rfl
  · rfl
  · omega

/-- Fresh images agree, whatever the object was. -/
theorem same_fresh (object object' : Image) (block_size : Nat) :
    SameImage (initialize_file_system object block_size)
      (initialize_file_system object' block_size) := by
  refine ⟨fun i _ => rfl, fun x hx => ?_⟩
  unfold initialize_file_system fill
  simp only
  split_ifs with hdata hroot
  · rfl
  · rfl
  · refine superBlock_congr _ _ _ ?_
    unfold Stored InTables sizeofFileSystem at hx
    unfold dataPos NUMBER_OF_BLOCKS sizeofBlock at *
    omega

theorem fresh_init (k : BlockSize) : fatSystem.init (fresh k) := by
  refine ⟨⟨fun i => rfl, fun x hx => ?_⟩, rfl⟩
  unfold fresh initialize_file_system fill superBlock writeWord
  simp only
  unfold InTables sizeofFileSystem at hx
  unfold rootDir ROOT_ENTRIES sizeofDirectoryEntry dataPos NUMBER_OF_BLOCKS sizeofBlock at *
  split_ifs
  · rfl
  · rfl
  · omega
  · omega
  · omega
  · omega
  · omega
  · rfl

theorem make_holds (object : Image) (k : BlockSize) :
    Holds (some (makeFileSystem object k)) (fresh k) := by
  have hinit := fresh_init k
  refine ⟨⟨_, rfl, fun object' => ?_⟩, initialized_terminated hinit.1, initialized_contained hinit,
    fun i _ => ?_⟩
  · have hloaded := same_loaded (initialize_file_system object k.bytes) object'
      (List.replicate (k.required_size
        - (write_file_system_to_file (initialize_file_system object k.bytes)).length) 0)
      fun i _ => (by decide : 0x000 < 2 ^ 16)
    exact (same_fresh _ object k.bytes).trans hloaded
  · show 0x000 < 2 ^ 16
    decide

/-! ## §5. Sessions. -/

/-- The operations of a session on the image are a run. -/
theorem onVolume_exec (h : Meets Fits onVolume v calls) :
    (fatSystem.restrict fun v op => BlockFits v.fs op).Exec v (calls.filterMap Call.op)
      (feed onVolume v calls).2 := by
  induction calls generalizing v with
  | nil => exact .nil v
  | cons call calls ih =>
    have hrest := ih h.2
    cases hop : call.op with
    | none =>
      rw [List.filterMap_cons_none hop]
      have hnext : (onVolume call v).2 = v := by
        unfold onVolume
        rw [hop]
        rfl
      rw [hnext] at hrest
      show System.Exec _ v _ (feed onVolume (onVolume call v).2 calls).2
      rw [hnext]
      exact hrest
    | some op =>
      rw [List.filterMap_cons_some hop]
      have hnext : (onVolume call v).2 = v.apply op := by
        unfold onVolume
        rw [hop]
        rfl
      exact .cons ⟨h.1 op hop, hnext⟩ hrest

theorem session_holds (object : Image) (h : Meets Fits onVolume (fresh k) calls) :
    (feed main (some (makeFileSystem object k)) calls).1 = (feed onVolume (fresh k) calls).1
      ∧ Holds (feed main (some (makeFileSystem object k)) calls).2
        (feed onVolume (fresh k) calls).2 :=
  feed_refines (f := main) (g := onVolume) (R := Holds) (C := Fits)
    (fun _ _ _ hv hfits => main_refines hv hfits) (make_holds object k) h

/-- **A session prints what one image prints.**  Whatever the stack holds in each call, the calls
    answer as they do on an image that stays in memory, the operations are a run of the file system,
    and the file holds the image that the run reaches. -/
theorem session_refines (object : Image) (k : BlockSize) (calls : List Call)
    (h : Meets Fits onVolume (fresh k) calls) :
    (feed main (some (makeFileSystem object k)) calls).1 = (feed onVolume (fresh k) calls).1
      ∧ (fatSystem.restrict fun v op => BlockFits v.fs op).Exec (fresh k)
        (calls.filterMap Call.op) (feed onVolume (fresh k) calls).2
      ∧ ∃ contents, (feed main (some (makeFileSystem object k)) calls).2 = some contents
        ∧ ∀ object', SameImage (feed onVolume (fresh k) calls).2.fs
          (read_file_system_from_file object' contents) := by
  obtain ⟨hanswers, hholds⟩ := session_holds object h
  exact ⟨hanswers, onVolume_exec h, hholds.loads⟩

/-- The word `mkdir`. -/
def mkdirWord : CString where
  bytes := text "mkdir"
  no_nul := by
    rw [show text "mkdir" = [109, 107, 100, 105, 114] from
      @utf8_ofList ['m', 'k', 'd', 'i', 'r'] (by simp [Char.utf8Size])]
    decide

/-- `mkdir \ A`, with a 7 in every byte behind the object. -/
def mkdirCall : Call := ⟨[nameA, nameB, mkdirWord, root, nameA], ⟨fun _ => 7, fun _ => 7⟩, midnight⟩

theorem mkdirCall_op : mkdirCall.op = some (.create root nameA midnight) := by
  show operationOf mkdirWord [root, nameA] midnight = _
  have hdir : mkdirWord.bytes ≠ text "dir" := fun h => absurd (utf8_inj.mp h) (by decide)
  unfold operationOf
  rw [if_neg hdir, if_pos (show mkdirWord.bytes = text "mkdir" from rfl)]

theorem mkdirCall_fits (k : BlockSize) : Fits (fresh k) mkdirCall := by
  intro op hop
  cases (mkdirCall_op.symm.trans hop)
  intro a _ _ _
  have hfront := (initialized_ascending (fresh_init k)).front
  unfold nextBlock
  rw [hfront.freeBlock_lt (by decide)]
  exact Nat.zero_le lastBlock

theorem session_refines_mkdir :
    (feed main (some (makeFileSystem ⟨fun _ => 5, fun _ => 5⟩ .half)) [mkdirCall]).1
      = (feed onVolume (fresh .half) [mkdirCall]).1 :=
  (session_refines ⟨fun _ => 5, fun _ => 5⟩ .half [mkdirCall] ⟨mkdirCall_fits .half, trivial⟩).1

/-! ## §6. The length of the file. -/

theorem main_file (call : Call) (contents : Bytes) :
    ∃ contents', (main call (some contents)).2 = some contents'
      ∧ (call.op = none → contents' = contents)
      ∧ (call.op ≠ none → contents'.length = sizeofFileSystem) := by
  obtain ⟨argv, object, now⟩ := call
  rcases argv with _ | ⟨argv0, _ | ⟨filename, _ | ⟨operation, params⟩⟩⟩
  · exact ⟨contents, rfl, fun _ => rfl, fun h => absurd rfl h⟩
  · exact ⟨contents, rfl, fun _ => rfl, fun h => absurd rfl h⟩
  · exact ⟨contents, rfl, fun _ => rfl, fun h => absurd rfl h⟩
  · unfold main Call.op
    simp only
    rw [saved_eq _ _ _ _ _ fun _ => none]
    cases operationOf operation (params.map toBackslashes) now with
    | none => exact ⟨contents, rfl, fun _ => rfl, fun h => absurd rfl h⟩
    | some op =>
      rw [Option.map_some, Option.elim_some]
      exact ⟨_, rfl, fun h => absurd h (Option.some_ne_none op), fun _ => length_write _⟩

/-- A file keeps its contents up to the first change, and then has the length of the object. -/
theorem feed_file (contents : Bytes) (calls : List Call) :
    ∃ contents', (feed main (some contents) calls).2 = some contents'
      ∧ ((∀ call ∈ calls, call.op = none) → contents' = contents)
      ∧ ((∃ call ∈ calls, call.op ≠ none) → contents'.length = sizeofFileSystem) := by
  suffices h : ∃ contents', (feed main (some contents) calls).2 = some contents'
      ∧ ((∀ call ∈ calls, call.op = none) → contents' = contents)
      ∧ ((contents.length = sizeofFileSystem ∨ ∃ call ∈ calls, call.op ≠ none) →
        contents'.length = sizeofFileSystem) by
    obtain ⟨contents', hfile, hsame, hlength⟩ := h
    exact ⟨contents', hfile, hsame, fun hchange => hlength (.inr hchange)⟩
  induction calls generalizing contents with
  | nil =>
    refine ⟨contents, rfl, fun _ => rfl, ?_⟩
    rintro (hlength | ⟨call, hcall, -⟩)
    · exact hlength
    · cases hcall
  | cons call calls ih =>
    obtain ⟨next, hnext, hkept, hcut⟩ := main_file call contents
    obtain ⟨last, hlast, hsame, hlength⟩ := ih next
    refine ⟨last, ?_, fun hnone => ?_, fun hchange => hlength ?_⟩
    · show (feed main (main call (some contents)).2 calls).2 = some last
      rw [hnext]
      exact hlast
    · rw [hsame fun c hc => hnone c (List.mem_cons_of_mem _ hc)]
      exact hkept (hnone call List.mem_cons_self)
    · by_cases hop : call.op = none
      · rcases hchange with hlength | ⟨c, hc, hne⟩
        · exact .inl (by rw [hkept hop]; exact hlength)
        · rcases List.mem_cons.mp hc with rfl | hc
          · exact absurd hop hne
          · exact .inr ⟨c, hc, hne⟩
      · exact .inl (hcut hop)

theorem length_make (object : Image) (k : BlockSize) :
    (makeFileSystem object k).length = k.required_size := by
  have hfits : sizeofFileSystem ≤ k.required_size := by cases k <;> decide
  unfold makeFileSystem
  simp only
  rw [List.length_append, List.length_replicate, length_write]
  omega

/-- **The first change cuts the file down to the object.**  A session without a change leaves the
    file of two or four megabytes as it is. -/
theorem session_length (object : Image) (k : BlockSize) (calls : List Call) :
    ∃ contents, (feed main (some (makeFileSystem object k)) calls).2 = some contents
      ∧ contents.length
        = (if ∀ call ∈ calls, call.op = none then k.required_size else sizeofFileSystem)
      ∧ ((∀ call ∈ calls, call.op = none) → contents = makeFileSystem object k) := by
  obtain ⟨contents, hfile, hsame, hlength⟩ := feed_file (makeFileSystem object k) calls
  refine ⟨contents, hfile, ?_, hsame⟩
  split
  · rw [hsame ‹_›]
    exact length_make object k
  · rename_i hchange
    push Not at hchange
    exact hlength hchange

/-! ## §7. What `dumpe2fs` counts. -/

/-- 1 for a creation that finds an entry to write. -/
def made (v : Volume) : Op → Nat
  | .create path _ _ => if (createSlot v.fs path).isSome then 1 else 0
  | .remove _ _ => 0

/-- The creations of a session that find an entry to write. -/
def creations : Volume → List Call → Nat
  | _, [] => 0
  | v, call :: calls => call.op.elim 0 (made v) + creations (onVolume call v).2 calls

/-- What the figures are read from, after `n` creations. -/
structure Counted (k : BlockSize) (n : Nat) (v : Volume) : Prop where
  super : ∀ x < fatPos, v.fs.mem x = (fresh k).fs.mem x
  kinds : ∀ a, IsSlot a → InImage a → live v.fs.mem a = true → file_attributes v.fs.mem a = 0x10
  front : Front v.fs.fat (min n NUMBER_OF_BLOCKS)
  terminated : Terminated v.fs.mem

theorem super_frame {m m' : Mem} {a x : Nat} (hsame : SameOutside a m m') (ha : IsSlot a)
    (hx : x < fatPos) : m' x = m x := by
  have hge := slot_ge ha
  unfold fatPos at hx
  unfold rootDir at hge
  exact hsame x (.inl (by omega))

theorem kinds_frame {m m' : Mem} {a b : Nat} (hsame : SameOutside a m m') (ha : IsSlot a)
    (hb : IsSlot b) (hne : b ≠ a)
    (h : live m b = true → file_attributes m b = 0x10) (hlive : live m' b = true) :
    file_attributes m' b = 0x10 := by
  rw [live_frame hsame ha hb hne] at hlive
  exact (hsame.entry ha hb hne (i := 30) (by decide)).trans (h hlive)

/-- The figures see the creations only. -/
theorem counted_step {n : Nat} (h : Counted k n v) (op : Op) :
    Counted k (n + made v op) (v.apply op) := by
  have ht := terminated_step op h.terminated
  cases op with
  | create path dirname tm_info =>
    cases hslot : createSlot v.fs path with
    | none =>
      have hstay : (v.apply (.create path dirname tm_info)) = v := by
        simp only [Volume.apply, create_directory, hslot]
      rw [hstay, show made v (.create path dirname tm_info) = 0 by simp [made, hslot]]
      exact h
    | some a =>
      have ha := createSlot_isSlot hslot
      have hnew := @apply_create a dirname tm_info v path hslot
      rw [show made v (.create path dirname tm_info) = 1 by simp [made, hslot]]
      constructor
      · intro x hx
        rw [hnew, super_frame writeEntry_outside ha hx]
        exact h.super x hx
      · intro b hb hin hlive
        rw [hnew] at hlive ⊢
        by_cases hba : b = a
        · subst hba
          exact writeEntry_attributes
        · exact kinds_frame writeEntry_outside ha hb hba (h.kinds b hb hin) hlive
      · have hfront := @Front.writeEntry _ v.fs a dirname tm_info h.front
        rw [hnew]
        rwa [show min (n + 1) NUMBER_OF_BLOCKS
          = min (min n NUMBER_OF_BLOCKS + 1) NUMBER_OF_BLOCKS by omega]
      · exact ht
  | remove path dirname =>
    rcases apply_cases v (.remove path dirname) with heq | ⟨_, _, _, _, hop, -, -⟩ |
      ⟨_, _, a, -, htarget, -, heq⟩
    · rw [heq]
      exact h
    · cases hop
    · have ha := removeTarget_isSlot htarget
      rw [heq] at ht ⊢
      refine ⟨fun x hx => ?_, fun b hb hin hlive => ?_, h.front, ht⟩
      · rw [super_frame erase_outside ha hx]
        exact h.super x hx
      · exact kinds_frame erase_outside ha hb ((erase_live_iff ha hb).mp hlive).1 (h.kinds b hb hin)
          hlive

theorem counted_feed {n : Nat} (h : Counted k n v) (calls : List Call) :
    Counted k (n + creations v calls) (feed onVolume v calls).2 := by
  induction calls generalizing v n with
  | nil => exact h
  | cons call calls ih =>
    unfold creations
    rw [← Nat.add_assoc]
    refine ih ?_
    unfold onVolume
    cases call.op with
    | none => exact h
    | some op => exact counted_step h op

theorem counted_fresh (k : BlockSize) : Counted k 0 (fresh k) := by
  have hinit := fresh_init k
  refine ⟨fun x _ => rfl, fun a ha hin hlive => ?_, (initialized_ascending hinit).front,
    initialized_terminated hinit.1⟩
  rw [initialized_dead hinit.1 ha hin] at hlive
  cases hlive

theorem occupied_front {fat : Nat → Nat} {n : Nat} (h : Front fat n) : occupied fat = n := by
  have hle := h.le
  have hmarked : ((Finset.range NUMBER_OF_BLOCKS).filter fun i => fat i ≠ 0x000)
      = Finset.range n := by
    ext i
    rw [Finset.mem_filter, Finset.mem_range, Finset.mem_range]
    constructor
    · intro hi
      by_contra hn
      exact hi.2 (h.free i (by omega) hi.1)
    · intro hi
      exact ⟨by omega, h.marked i hi⟩
  unfold occupied
  rw [hmarked, Finset.card_range]

/-- The words of the super block that are printed. -/
theorem super_words {n : Nat} (h : Counted k n v) :
    intAt v.fs.mem 0 = k.bytes ∧ intAt v.fs.mem 4 = NUMBER_OF_BLOCKS := by
  have hword : ∀ a, a + 4 ≤ fatPos →
      readWord v.fs.mem a = readWord (superBlock (fun _ => 0) k.bytes) a := by
    intro a ha
    refine readWord_congr fun x _ hx => ?_
    rw [h.super x (by omega)]
    unfold fatPos at ha
    show fill (fill _ _ _ _) _ _ _ x = _
    rw [fill_of_out _ _ (by unfold dataPos; omega), fill_of_out _ _ (by unfold rootDir; omega)]
  have hsize : readWord (superBlock (fun _ => 0) k.bytes) 0 = k.bytes := by
    unfold superBlock
    simp only
    rw [read_write_apart _ _ (by decide), read_write_apart _ _ (by decide),
      read_write_apart _ _ (by decide), read_write_apart _ _ (by decide),
      read_write_self _ _ (by cases k <;> decide)]
  have hcount : readWord (superBlock (fun _ => 0) k.bytes) 4 = NUMBER_OF_BLOCKS := by
    unfold superBlock
    simp only
    rw [read_write_apart _ _ (by decide), read_write_apart _ _ (by decide),
      read_write_apart _ _ (by decide), read_write_self _ _ (by decide)]
  unfold intAt
  rw [hword 0 (by decide), hword 4 (by decide), hsize, hcount]
  refine ⟨?_, by decide⟩
  cases k <;> decide

/-- The name in an entry. -/
def nameOf (m : Mem) (a : Nat) : Bytes := (bytesAt m a MAX_FILENAME).takeWhile (· ≠ 0)

/-- The figures after `n` creations. -/
theorem figures_eq {n : Nat} (h : Counted k n v) :
    figures v.fs =
      { number_of_blocks := NUMBER_OF_BLOCKS
        block_size := k.bytes
        occupied_blocks := min n NUMBER_OF_BLOCKS
        free_blocks := NUMBER_OF_BLOCKS - (min n NUMBER_OF_BLOCKS : Nat)
        files := 0
        directories := ((table rootDir).filter (live v.fs.mem)).length
        blocks := ((table rootDir).filter (live v.fs.mem)).map fun a =>
          (first_block v.fs.mem a, nameOf v.fs.mem a, []) } := by
  obtain ⟨hsize, hcount⟩ := super_words h
  have hattr : ∀ a ∈ (table rootDir).filter (live v.fs.mem),
      file_attributes v.fs.mem a = 0x10 := by
    intro a ha
    obtain ⟨hmem, hlive⟩ := List.mem_filter.mp ha
    exact h.kinds a (root_inImage hmem).1 (root_inImage hmem).2 hlive
  have hfiles : ((table rootDir).filter (live v.fs.mem)).countP
      (fun a => file_attributes v.fs.mem a != 0x10) = 0 := by
    refine List.countP_eq_zero.mpr fun a ha => ?_
    rw [hattr a ha]
    decide
  have hdirectories : ((table rootDir).filter (live v.fs.mem)).countP
      (fun a => file_attributes v.fs.mem a == 0x10)
        = ((table rootDir).filter (live v.fs.mem)).length := by
    refine List.countP_eq_length.mpr fun a ha => ?_
    rw [hattr a ha]
    decide
  have hblocks : ((table rootDir).filter (live v.fs.mem)).map (fun a =>
        (first_block v.fs.mem a, stringAt v.fs.mem a, stringAt v.fs.mem (a + 8)))
      = ((table rootDir).filter (live v.fs.mem)).map fun a =>
        (first_block v.fs.mem a, nameOf v.fs.mem a, []) := by
    refine List.map_congr_left fun a ha => ?_
    obtain ⟨hslot, hin⟩ := root_inImage (List.mem_filter.mp ha).1
    have hnul := (h.terminated a hslot hin).1
    unfold InImage sizeofDirectoryEntry at hin
    rw [stringAt_eq hnul (by omega), stringAt_eq (k := 0) hnul (by omega)]
    rfl
  unfold figures
  simp only [hsize, hcount, occupied_front h.front, hfiles, hdirectories, hblocks]

/-- **What `dumpe2fs` prints after a session**: every creation that found an entry counts as an
    occupied block, whether the directory is there any more or not; the entries of the root
    directory are directories, and their names have no extension. -/
theorem dump_figures (object : Image) (k : BlockSize) (calls : List Call) (call : Call)
    (argv0 filename operation : CString) (params : List CString)
    (hfits : Meets Fits onVolume (fresh k) calls)
    (hargv : call.argv = argv0 :: filename :: operation :: params)
    (hop : operation.bytes = text "dumpe2fs") :
    let v := (feed onVolume (fresh k) calls).2
    let occupied := min (creations (fresh k) calls) NUMBER_OF_BLOCKS
    let entries := (table rootDir).filter (live v.fs.mem)
    (main call (feed main (some (makeFileSystem object k)) calls).2).1 = success (printed
      { number_of_blocks := NUMBER_OF_BLOCKS
        block_size := k.bytes
        occupied_blocks := occupied
        free_blocks := NUMBER_OF_BLOCKS - (occupied : Nat)
        files := 0
        directories := entries.length
        blocks := entries.map fun a => (first_block v.fs.mem a, nameOf v.fs.mem a, []) }) := by
  intro v occupied entries
  obtain ⟨-, hholds⟩ := session_holds object hfits
  obtain ⟨contents, hfile, hloads⟩ := hholds.loads
  have hcounted := counted_feed (counted_fresh k) calls
  rw [Nat.zero_add] at hcounted
  have hdump : ∀ fs, (operate fs argv0 operation (params.map toBackslashes) call.now).1
      = success (dump_file_system_info fs) := by
    intro fs
    have hne : ∀ s : String, "dumpe2fs" ≠ s → operation.bytes ≠ text s := by
      intro s hs h
      exact hs (utf8_inj.mp (hop.symm.trans h))
    unfold operate
    rw [if_neg (hne _ (by decide)), if_neg (hne _ (by decide)), if_neg (hne _ (by decide)),
      if_pos hop]
  rw [hfile]
  unfold main
  rw [hargv]
  simp only
  rw [hdump, same_dump (hloads call.object) hholds.terminated]
  unfold dump_file_system_info
  rw [figures_eq hcounted]

/-- The word `dumpe2fs`. -/
def dumpWord : CString where
  bytes := text "dumpe2fs"
  no_nul := by
    rw [show text "dumpe2fs" = [100, 117, 109, 112, 101, 50, 102, 115] from
      @utf8_ofList ['d', 'u', 'm', 'p', 'e', '2', 'f', 's'] (by simp [Char.utf8Size])]
    decide

theorem dump_figures_mkdir : ∃ f : Figures, f.files = 0
    ∧ f.occupied_blocks = min (creations (fresh .half) [mkdirCall]) NUMBER_OF_BLOCKS
    ∧ (main ⟨[nameA, nameB, dumpWord], ⟨fun _ => 3, fun _ => 3⟩, midnight⟩
        (feed main (some (makeFileSystem ⟨fun _ => 5, fun _ => 5⟩ .half)) [mkdirCall]).2).1
      = success (printed f) :=
  ⟨_, rfl, rfl, dump_figures ⟨fun _ => 5, fun _ => 5⟩ .half [mkdirCall]
    ⟨[nameA, nameB, dumpWord], ⟨fun _ => 3, fun _ => 3⟩, midnight⟩ nameA nameB dumpWord []
    ⟨mkdirCall_fits .half, trivial⟩ rfl rfl⟩

end SystemOS.Fat12.Sessions
