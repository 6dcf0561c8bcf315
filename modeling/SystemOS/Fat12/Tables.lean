/-
  SystemOS.Fat12.Tables — where the directory entries lie, and how far a change to one reaches.

  A table that a lookup arrives at is the root directory or starts at a multiple of 512 bytes in
  `data`, so entries are 32-byte records on two grids, and two of them are equal or disjoint
  (`slots_apart`).  Both operations change one entry.  Comparisons with the names in other entries
  do not see the change, because the byte behind a name is 0 in every reachable image
  (`reachable_terminated`).

  Key results:
    * `walk_isTable`         — lookups arrive at tables.
    * `writeEntry_outside`, `erase_outside` — the operations change one entry.
    * `isNamed_frame`, `child_frame`, `listing_frame` — what does not see it.
    * `reachable_terminated` — names end within their entries.
-/
import SystemOS.Fat12.FileSystem
import Mathlib.Data.List.Find

namespace SystemOS.Fat12.Tables

open SystemOS.Lib.ByteMemory SystemOS.Lib.Strings SystemOS.Lib.Transition
open SystemOS.Fat12.FileSystem

/-! ## §1. The grid. -/

theorem mem_entriesFrom {n a x : Nat} :
    x ∈ entriesFrom n a ↔ ∃ i < n, x = a + sizeofDirectoryEntry * i := by
  induction n generalizing a with
  | zero => simp [entriesFrom]
  | succ n ih =>
    unfold entriesFrom
    rw [List.mem_cons, ih]
    constructor
    · intro hmem
      rcases hmem with rfl | ⟨i, hi, rfl⟩
      · exact ⟨0, by omega, by omega⟩
      · exact ⟨i + 1, by omega, by ring⟩
    · intro hmem
      obtain ⟨i, hi, rfl⟩ := hmem
      cases i with
      | zero => exact .inl (by omega)
      | succ i => exact .inr ⟨i, by omega, by ring⟩

theorem mem_table {dir x : Nat} :
    x ∈ table dir ↔ ∃ i < ROOT_ENTRIES, x = dir + sizeofDirectoryEntry * i := mem_entriesFrom

theorem entriesFrom_sorted (n a : Nat) : (entriesFrom n a).Pairwise (· < ·) := by
  induction n generalizing a with
  | zero => exact List.Pairwise.nil
  | succ n ih =>
    refine List.Pairwise.cons (fun x hx => ?_) (ih _)
    obtain ⟨i, _, rfl⟩ := mem_entriesFrom.mp hx
    unfold sizeofDirectoryEntry
    omega

theorem table_sorted (dir : Nat) : (table dir).Pairwise (· < ·) :=
  entriesFrom_sorted ROOT_ENTRIES dir

/-- The addresses of tables. -/
def IsTable (dir : Nat) : Prop :=
  dir = rootDir ∨ ∃ b < 256, dir = dataPos + b * BYTES_PER_SECTOR

/-- The addresses of entries. -/
def IsSlot (a : Nat) : Prop := ∃ dir, IsTable dir ∧ a ∈ table dir

def InImage (a : Nat) : Prop := a + sizeofDirectoryEntry ≤ sizeofFileSystem

instance (a : Nat) : Decidable (InImage a) :=
  inferInstanceAs (Decidable (a + sizeofDirectoryEntry ≤ sizeofFileSystem))

theorem tableOf_ge (m : Mem) (a : Nat) : dataPos ≤ tableOf m a := Nat.le_add_right _ _

theorem isTable_tableOf (m : Mem) (a : Nat) : IsTable (tableOf m a) :=
  .inr ⟨_, (first_block m a).toNat_lt, rfl⟩

theorem child_ge {m : Mem} {dir d : Nat} {token : List UInt8} (h : child m dir token = some d) :
    IsTable d ∧ dataPos ≤ d := by
  obtain ⟨e, -, rfl⟩ := Option.map_eq_some_iff.mp h
  exact ⟨isTable_tableOf m e, tableOf_ge m e⟩

theorem walk_cons {m : Mem} {dir : Nat} {token : List UInt8} {ts : List (List UInt8)} :
    walk m dir (token :: ts) = (child m dir token).bind fun next => walk m next ts := by
  conv_lhs => unfold walk
  cases child m dir token <;> rfl

/-- **A lookup arrives at a table**, below the root at one in `data`. -/
theorem walk_isTable {m : Mem} {ts : List (List UInt8)} : ∀ {dir d : Nat}, IsTable dir →
    walk m dir ts = some d → IsTable d ∧ (ts = [] ∧ d = dir ∨ dataPos ≤ d) := by
  induction ts with
  | nil =>
    intro dir d hdir h
    cases Option.some.inj h
    exact ⟨hdir, .inl ⟨rfl, rfl⟩⟩
  | cons token ts ih =>
    intro dir d _ h
    rw [walk_cons] at h
    obtain ⟨next, hchild, hwalk⟩ := Option.bind_eq_some_iff.mp h
    have hnext := child_ge hchild
    obtain ⟨htable, hd⟩ := ih hnext.1 hwalk
    refine ⟨htable, .inr ?_⟩
    rcases hd with ⟨-, rfl⟩ | hd
    · exact hnext.2
    · exact hd

/-- An entry of the root directory lies in no other table. -/
theorem root_slot {a : Nat} (ha : a ∈ table rootDir) : a + sizeofDirectoryEntry ≤ dataPos := by
  obtain ⟨i, hi, rfl⟩ := mem_table.mp ha
  unfold ROOT_ENTRIES at hi
  unfold rootDir sizeofDirectoryEntry dataPos
  omega

theorem slot_grid {a : Nat} (h : IsSlot a) :
    (∃ i < ROOT_ENTRIES, a = rootDir + sizeofDirectoryEntry * i)
      ∨ ∃ k, a = dataPos + sizeofDirectoryEntry * k := by
  obtain ⟨dir, rfl | ⟨b, -, rfl⟩, ha⟩ := h
  · exact .inl (mem_table.mp ha)
  · obtain ⟨i, -, rfl⟩ := mem_table.mp ha
    refine .inr ⟨16 * b + i, ?_⟩
    unfold BYTES_PER_SECTOR sizeofDirectoryEntry
    ring

/-- The bytes of an entry in the image. -/
theorem inTables_entry {a i : Nat} (ha : IsSlot a) (hin : InImage a) (hi : i < sizeofDirectoryEntry) :
    InTables (a + i) := by
  unfold InImage at hin
  unfold InTables
  rcases slot_grid ha with ⟨k, hk, rfl⟩ | ⟨k, rfl⟩
  · unfold sizeofDirectoryEntry at *
    omega
  · omega

theorem slot_ge {a : Nat} (h : IsSlot a) : rootDir ≤ a := by
  rcases slot_grid h with ⟨i, -, rfl⟩ | ⟨k, rfl⟩
  · exact Nat.le_add_right _ _
  · unfold rootDir dataPos
    omega

/-- **Two entries are equal or disjoint.** -/
theorem slots_apart {a b : Nat} (ha : IsSlot a) (hb : IsSlot b) (hne : a ≠ b) :
    a + sizeofDirectoryEntry ≤ b ∨ b + sizeofDirectoryEntry ≤ a := by
  have hroot : ∀ i < ROOT_ENTRIES, rootDir + sizeofDirectoryEntry * i + sizeofDirectoryEntry
      ≤ dataPos := fun i hi => root_slot (mem_table.mpr ⟨i, hi, rfl⟩)
  -- on one grid the addresses differ by multiples of 32; the root ends before `data`
  rcases slot_grid ha with ⟨i, hi, rfl⟩ | ⟨k, rfl⟩ <;>
    rcases slot_grid hb with ⟨j, hj, rfl⟩ | ⟨l, rfl⟩
  · unfold sizeofDirectoryEntry at *
    omega
  · have := hroot i hi
    omega
  · have := hroot j hj
    omega
  · unfold sizeofDirectoryEntry at *
    omega

/-- Entries behind the image lie above those in it. -/
theorem slot_above {a b : Nat} (ha : IsSlot a) (hb : IsSlot b) (hin : InImage a)
    (hout : ¬ InImage b) : a + sizeofDirectoryEntry ≤ b := by
  unfold InImage at *
  have hne : a ≠ b := by
    intro heq
    subst heq
    exact hout hin
  have := slots_apart ha hb hne
  omega

theorem live_eq_false_iff {m : Mem} {a : Nat} : live m a = false ↔ m a = 0 := bne_eq_false_iff_eq

theorem ne_of_live_of_dead {m : Mem} {a b : Nat} (hlive : live m b = true)
    (hdead : live m a = false) : b ≠ a := by
  intro heq
  rw [heq, hdead] at hlive
  cases hlive

/-! ## §2. What the operations write. -/

/-- The memories differ at most in the entry `a`. -/
def SameOutside (a : Nat) (m m' : Mem) : Prop :=
  ∀ x, x < a ∨ a + sizeofDirectoryEntry ≤ x → m' x = m x

theorem writeTimes_of_out (m : Mem) {a x : Nat} (tm_info : tm) (h : x < a + 26 ∨ a + 30 ≤ x) :
    writeTimes m a tm_info x = m x :=
  writeBytes_of_out m (by simpa using h)

variable {fs : Image} {a : Nat} {dirname : CString} {tm_info : tm}

/-- The memory that `writeEntry` leaves. -/
theorem writeEntry_mem (fs : Image) (a : Nat) (dirname : CString) (tm_info : tm) {x : Nat}
    (h : x < a + 26 ∨ a + 30 ≤ x) :
    (writeEntry fs a dirname tm_info).mem x =
      if x = a + 20 then ((freeBlock fs.fat).map UInt8.ofNat).getD (fs.mem x)
      else if x = a + 31 then 0x01
      else if x = a + 30 then 0x10
      else writeBytes fs.mem a (padded MAX_FILENAME dirname.bytes) x := by
  have hname : x = a + 20 → writeBytes fs.mem a (padded MAX_FILENAME dirname.bytes) x = fs.mem x :=
    fun hx => writeBytes_of_out fs.mem (by rw [padded_length]; unfold MAX_FILENAME; omega)
  unfold writeEntry
  cases freeBlock fs.fat with
  | none =>
    simp only [writeTimes_of_out _ tm_info h, writeByte, Option.map_none, Option.getD_none]
    by_cases hx : x = a + 20
    · rw [if_neg (by omega), if_neg (by omega), if_pos hx, hname hx]
    · rw [if_neg hx]
  | some i =>
    simp only [writeTimes_of_out _ tm_info h, writeByte, Option.map_some, Option.getD_some]

theorem writeEntry_outside : SameOutside a fs.mem (writeEntry fs a dirname tm_info).mem := by
  intro x hx
  unfold sizeofDirectoryEntry at hx
  rw [writeEntry_mem _ _ _ _ (by omega), if_neg (by omega), if_neg (by omega), if_neg (by omega),
      writeBytes_of_out _ (by rw [padded_length]; unfold MAX_FILENAME; omega)]

/-- Bytes 8 to 19 and 21 to 25 keep their values. -/
theorem writeEntry_gap {i : Nat} (h : 8 ≤ i) (h' : i < 26) (hne : i ≠ 20) :
    (writeEntry fs a dirname tm_info).mem (a + i) = fs.mem (a + i) := by
  rw [writeEntry_mem _ _ _ _ (by omega), if_neg (by omega), if_neg (by omega), if_neg (by omega),
      writeBytes_of_out _ (by rw [padded_length]; unfold MAX_FILENAME; omega)]

theorem writeEntry_attributes : file_attributes (writeEntry fs a dirname tm_info).mem a = 0x10 := by
  unfold file_attributes
  rw [writeEntry_mem _ _ _ _ (by omega), if_neg (by omega), if_neg (by omega), if_pos rfl]

theorem writeEntry_first_block {i : Nat} (h : freeBlock fs.fat = some i) :
    first_block (writeEntry fs a dirname tm_info).mem a = UInt8.ofNat i := by
  unfold first_block
  rw [writeEntry_mem _ _ _ _ (by omega), if_pos rfl, h, Option.map_some, Option.getD_some]

theorem writeEntry_name {i : Nat} (h : i < MAX_FILENAME) :
    (padded MAX_FILENAME dirname.bytes)[i]?
      = some ((writeEntry fs a dirname tm_info).mem (a + i)) := by
  have hlen : i < (padded MAX_FILENAME dirname.bytes).length := by rw [padded_length]; exact h
  unfold MAX_FILENAME at h
  rw [writeEntry_mem _ _ _ _ (by omega), if_neg (by omega), if_neg (by omega), if_neg (by omega),
      writeBytes_at _ hlen, List.getElem?_eq_getElem hlen]

/-- The entry written is live, unless it got the empty name. -/
theorem writeEntry_live :
    live (writeEntry fs a dirname tm_info).mem a = true ↔ dirname.bytes ≠ [] := by
  have h0 : (padded MAX_FILENAME dirname.bytes)[0]?
      = some ((writeEntry fs a dirname tm_info).mem a) := writeEntry_name (i := 0) (by decide)
  unfold live
  rw [bne_iff_ne]
  have hnul := dirname.no_nul
  cases hb : dirname.bytes with
  | nil =>
    rw [hb] at h0
    rw [← Option.some.inj h0]
    simp
  | cons c cs =>
    rw [hb] at h0 hnul
    rw [← Option.some.inj h0]
    rw [List.mem_cons, not_or] at hnul
    exact ⟨fun _ => List.cons_ne_nil c cs, fun _ hc => hnul.1 hc.symm⟩

theorem writeEntry_dead (h : dirname.bytes = []) :
    live (writeEntry fs a dirname tm_info).mem a = false :=
  Bool.eq_false_iff.mpr fun hlive => writeEntry_live.mp hlive h

theorem erase_outside : SameOutside a fs.mem (erase fs a).mem :=
  fun _ hx => fill_of_out fs.mem 0 hx

theorem erase_not_live : live (erase fs a).mem a = false := by
  unfold live
  rw [show (erase fs a).mem a = 0 from
    fill_of_in fs.mem 0 (Nat.le_refl a) (Nat.lt_add_of_pos_right (by decide))]
  rfl

theorem erase_inside {x : Nat} (h : a ≤ x) (h' : x < a + sizeofDirectoryEntry) :
    (erase fs a).mem x = 0 :=
  fill_of_in fs.mem 0 h h'

/-! ## §3. What sees the change of one entry. -/

/-- Names end within their entries, and the upper byte of a block number is 0. -/
def Terminated (m : Mem) : Prop :=
  ∀ a, IsSlot a → InImage a → m (a + 8) = 0 ∧ m (a + 21) = 0

section Frame

variable {m m' : Mem} {b dir : Nat} {token : List UInt8}

/-- The bytes of another entry are the same. -/
theorem SameOutside.entry (hsame : SameOutside a m m') (ha : IsSlot a) (hb : IsSlot b)
    (hne : b ≠ a) {i : Nat} (hi : i < sizeofDirectoryEntry) : m' (b + i) = m (b + i) := by
  have := slots_apart hb ha hne
  exact hsame _ (by omega)

theorem live_frame (hsame : SameOutside a m m') (ha : IsSlot a) (hb : IsSlot b) (hne : b ≠ a) :
    live m' b = live m b :=
  congrArg (· != 0) (hsame.entry ha hb hne (i := 0) (by decide))

/-- The live entries after an erasure. -/
theorem erase_live_iff (ha : IsSlot a) (hb : IsSlot b) :
    live (erase fs a).mem b = true ↔ b ≠ a ∧ live fs.mem b = true := by
  constructor
  · intro hlive
    have hne := ne_of_live_of_dead hlive erase_not_live
    rw [live_frame erase_outside ha hb hne] at hlive
    exact ⟨hne, hlive⟩
  · intro h
    rw [live_frame erase_outside ha hb h.1]
    exact h.2

/-- **The name of another entry compares as before.** -/
theorem isNamed_frame (hsame : SameOutside a m m') (ha : IsSlot a) (hin : InImage a)
    (hm : Terminated m) (hb : IsSlot b) (hne : b ≠ a) (htoken : 0 ∉ token) :
    isNamed m' token b = isNamed m token b := by
  have hattr : file_attributes m' b = file_attributes m b :=
    hsame.entry ha hb hne (by decide)
  have hname : strEq m' b token = strEq m b token := by
    by_cases hbin : InImage b
    · -- the comparison stops at byte 8 at the latest
      refine strEq_congr (k := 8) htoken (fun x hx hx' => ?_) (hm b hb hbin).1
      have := slots_apart hb ha hne
      unfold sizeofDirectoryEntry at *
      exact hsame x (by unfold sizeofDirectoryEntry; omega)
    · -- behind the image, all that is read lies above the entry `a`
      have := slot_above ha hb hin hbin
      exact strEq_congr_up fun x hx => hsame x (by omega)
  unfold isNamed
  rw [hattr, hname]

theorem tableOf_frame (hsame : SameOutside a m m') (ha : IsSlot a) (hb : IsSlot b)
    (hne : b ≠ a) : tableOf m' b = tableOf m b := by
  unfold tableOf first_block
  rw [hsame.entry ha hb hne (by decide)]

/-- Lookup of a name that no entry but those other than `a` has, before and after. -/
theorem child_frame (hsame : SameOutside a m m') (ha : IsSlot a) (hin : InImage a)
    (hm : Terminated m) (hdir : IsTable dir) (htoken : 0 ∉ token)
    (hat : a ∈ table dir → isNamed m token a = false ∧ isNamed m' token a = false) :
    child m' dir token = child m dir token := by
  have hslot : ∀ b ∈ table dir, IsSlot b := fun b hb => ⟨dir, hdir, hb⟩
  have hfind : (table dir).find? (isNamed m' token) = (table dir).find? (isNamed m token) := by
    refine List.find?_congr fun b hb => ?_
    by_cases hba : b = a
    · subst hba
      rw [(hat hb).1, (hat hb).2]
    · exact isNamed_frame hsame ha hin hm (hslot b hb) hba htoken
  unfold child
  rw [hfind]
  refine Option.map_congr fun b hres => ?_
  have hb := List.mem_of_find?_eq_some hres
  refine tableOf_frame hsame ha (hslot b hb) ?_
  intro heq
  subst heq
  have := List.find?_some hres
  rw [(hat hb).1] at this
  cases this

/-- Lookup of a name that an entry before `a` has. -/
theorem child_frame_before (hsame : SameOutside a m m') (ha : IsSlot a) (hin : InImage a)
    (hm : Terminated m) (hdir : IsTable dir) (htoken : 0 ∉ token)
    (hfind : (table dir).find? (isNamed m token) = some b) (hlt : b < a) :
    child m' dir token = child m dir token := by
  obtain ⟨hb, before, behind, hl, hbefore⟩ := List.find?_eq_some_iff_append.mp hfind
  have hslot : ∀ e ∈ table dir, IsSlot e := fun e he => ⟨dir, hdir, he⟩
  have hsorted := table_sorted dir
  rw [hl, List.pairwise_append] at hsorted
  have hb' : IsSlot b := hslot b (List.mem_of_find?_eq_some hfind)
  -- the entries that the scan looks at first lie before `b`, and so before `a`
  have hfind' : (table dir).find? (isNamed m' token) = some b := by
    refine List.find?_eq_some_iff_append.mpr ⟨?_, before, behind, hl, fun e he => ?_⟩
    · rw [isNamed_frame hsame ha hin hm hb' (by omega) htoken]
      exact hb
    · have heb : e < b := hsorted.2.2 e he b List.mem_cons_self
      rw [isNamed_frame hsame ha hin hm (hslot e (by rw [hl]; exact List.mem_append_left _ he))
        (by omega) htoken]
      exact hbefore e he
  unfold child
  rw [hfind, hfind']
  exact congrArg some (tableOf_frame hsame ha hb' (by omega))

theorem line_frame (hsame : SameOutside a m m') (ha : IsSlot a) (hb : IsSlot b) (hne : b ≠ a) :
    line m' b = line m b := by
  have hbyte : ∀ {i : Nat}, i < sizeofDirectoryEntry → m' (b + i) = m (b + i) := fun hi =>
    hsame.entry ha hb hne hi
  have hbytes : ∀ k n, k + n ≤ sizeofDirectoryEntry → bytesAt m' (b + k) n = bytesAt m (b + k) n := by
    intro k n hk
    refine List.map_congr_left fun i hi => ?_
    rw [List.mem_range] at hi
    rw [Nat.add_assoc]
    exact hbyte (by omega)
  unfold line file_attributes
  rw [hbyte (i := 31) (by decide), hbyte (i := 30) (by decide), hbyte (i := 15) (by decide),
      hbytes 26 2 (by decide), hbytes 28 2 (by decide), hbytes 8 MAX_EXTENSION (by decide),
      show bytesAt m' b MAX_FILENAME = bytesAt m b MAX_FILENAME from hbytes 0 8 (by decide)]

/-- **The listing of a table sees a change of its own live entries only.** -/
theorem listing_frame (hsame : SameOutside a m m') (ha : IsSlot a) (hdir : IsTable dir)
    (hat : a ∈ table dir → live m a = false ∧ live m' a = false) :
    listing m' dir = listing m dir := by
  have hslot : ∀ b ∈ table dir, IsSlot b := fun b hb => ⟨dir, hdir, hb⟩
  have hlive : (table dir).filter (live m') = (table dir).filter (live m) := by
    refine List.filter_congr fun b hb => ?_
    by_cases hba : b = a
    · subst hba
      rw [(hat hb).1, (hat hb).2]
    · exact live_frame hsame ha (hslot b hb) hba
  unfold listing
  rw [hlive]
  -- what is printed is live, and `a` is not
  refine List.map_congr_left fun b hb => ?_
  obtain ⟨hb, hblive⟩ := List.mem_filter.mp hb
  refine line_frame hsame ha (hslot b hb) ?_
  intro heq
  subst heq
  exact ne_of_live_of_dead hblive (hat hb).1 rfl

/-- Lookups agree when they agree at every table on the way. -/
theorem walk_congr {ts : List (List UInt8)} : ∀ {dir : Nat},
    (∀ before token behind d, ts = before ++ token :: behind → walk m dir before = some d →
      child m' d token = child m d token) → walk m' dir ts = walk m dir ts := by
  induction ts with
  | nil => intro _ _; rfl
  | cons token ts ih =>
    intro dir h
    rw [walk_cons, walk_cons, h [] token ts dir rfl rfl]
    cases hchild : child m dir token with
    | none => rfl
    | some next =>
      refine ih fun before token' behind d hts hd => ?_
      refine h (token :: before) token' behind d (by rw [hts]; rfl) ?_
      rw [walk_cons, hchild]
      exact hd

end Frame

/-! ## §4. Which entries the operations change. -/

theorem find_directory_eq (fs : Image) (path : CString) :
    find_directory fs path = walk fs.mem rootDir (tokens path) := by
  unfold find_directory
  split
  · next h =>
    unfold tokens
    rw [h]
    rfl
  · rfl

theorem tokens_no_nul (path : CString) : ∀ t ∈ tokens path, t ≠ [] ∧ 0 ∉ t := fun _ ht =>
  ⟨(words_spec ht).1, fun h0 => path.no_nul ((words_spec ht).2 0 h0).1⟩

theorem createSlot_eq (fs : Image) (path : CString) :
    createSlot fs path = (find_directory fs path).bind (emptyEntry fs.mem) := by
  have hparent : (if path.bytes = [backslash] then some rootDir else find_directory fs path)
      = find_directory fs path := by
    unfold find_directory
    split <;> rfl
  unfold createSlot
  simp only [hparent]
  cases find_directory fs path <;> rfl

theorem find_directory_isTable {path : CString} {dir : Nat}
    (h : find_directory fs path = some dir) : IsTable dir := by
  rw [find_directory_eq] at h
  exact (walk_isTable (.inl rfl) h).1

/-- The entry to be written is an empty one of the parent's table. -/
theorem createSlot_spec {path : CString} (h : createSlot fs path = some a) :
    ∃ dir, find_directory fs path = some dir ∧ a ∈ table dir ∧ fs.mem a = 0 := by
  rw [createSlot_eq] at h
  obtain ⟨dir, hdir, ha⟩ := Option.bind_eq_some_iff.mp h
  have hnul : (fs.mem a == 0) = true :=
    List.find?_some (p := fun a => fs.mem a == 0) ha
  exact ⟨dir, hdir, List.mem_of_find?_eq_some ha, eq_of_beq hnul⟩

/-- The entry to be erased is one of the parent's table, of the name given. -/
theorem removeTarget_spec {path : CString} (h : removeTarget fs path dirname = some a) :
    ∃ dir, find_directory fs path = some dir ∧ a ∈ table dir
      ∧ strnEq fs.mem a MAX_FILENAME dirname.bytes = true ∧ file_attributes fs.mem a = 0x10 := by
  unfold removeTarget at h
  split at h
  · next dir hdir =>
    have hsel := List.find?_some h
    rw [Bool.and_eq_true] at hsel
    exact ⟨dir, hdir, List.mem_of_find?_eq_some h, hsel.1, eq_of_beq hsel.2⟩
  · cases h

theorem createSlot_isSlot {path : CString} (h : createSlot fs path = some a) : IsSlot a := by
  obtain ⟨dir, hdir, ha, -⟩ := createSlot_spec h
  exact ⟨dir, find_directory_isTable hdir, ha⟩

theorem removeTarget_isSlot {path : CString} (h : removeTarget fs path dirname = some a) :
    IsSlot a := by
  obtain ⟨dir, hdir, ha, -⟩ := removeTarget_spec h
  exact ⟨dir, find_directory_isTable hdir, ha⟩

/-! ## §5. Names end within their entries. -/

/-- **An operation does nothing, writes one entry, or erases one.** -/
theorem apply_cases (v : Volume) (op : Op) :
    v.apply op = v
      ∨ (∃ path dirname tm_info a, op = .create path dirname tm_info
          ∧ createSlot v.fs path = some a
          ∧ v.apply op = ⟨writeEntry v.fs a dirname tm_info,
              Function.update v.marks a (freeBlock v.fs.fat)⟩)
      ∨ ∃ path dirname a, op = .remove path dirname ∧ removeTarget v.fs path dirname = some a
          ∧ is_empty v.fs.mem a = true
          ∧ v.apply op = ⟨erase v.fs a, Function.update v.marks a none⟩ := by
  cases op with
  | create path dirname tm_info =>
    cases hslot : createSlot v.fs path with
    | none =>
      left
      simp only [Volume.apply, create_directory, hslot]
    | some a =>
      refine .inr (.inl ⟨path, dirname, tm_info, a, rfl, hslot, ?_⟩)
      simp only [Volume.apply, create_directory, hslot]
  | remove path dirname =>
    cases htarget : removeTarget v.fs path dirname with
    | none =>
      left
      simp only [Volume.apply, remove_directory, htarget]
    | some a =>
      cases hempty : is_empty v.fs.mem a with
      | false =>
        left
        simp only [Volume.apply, remove_directory, htarget, hempty, Bool.false_eq_true, if_false]
      | true =>
        refine .inr (.inr ⟨path, dirname, a, rfl, htarget, hempty, ?_⟩)
        simp only [Volume.apply, remove_directory, htarget, hempty, if_true]

/-- A creation that has an entry to write writes it. -/
theorem apply_create {v : Volume} {path : CString} (h : createSlot v.fs path = some a) :
    (v.apply (.create path dirname tm_info)).fs = writeEntry v.fs a dirname tm_info := by
  simp only [Volume.apply, create_directory, h]

/-- No entry of a fresh image is live. -/
theorem initialized_dead {fs : Image} (h : Initialized fs) (ha : IsSlot a) (hin : InImage a) :
    live fs.mem a = false := by
  unfold live
  rw [h.2 a (inTables_entry (i := 0) ha hin (by decide))]
  rfl

theorem initialized_terminated {fs : Image} (h : Initialized fs) : Terminated fs.mem := by
  intro a ha hin
  exact ⟨h.2 _ (inTables_entry ha hin (by decide)), h.2 _ (inTables_entry ha hin (by decide))⟩

theorem terminated_step {v : Volume} (op : Op) (hv : Terminated v.fs.mem) :
    Terminated (v.apply op).fs.mem := by
  intro b hb hin
  have hkeep : ∀ {a : Nat} {m' : Mem}, IsSlot a → SameOutside a v.fs.mem m' → b ≠ a →
      m' (b + 8) = 0 ∧ m' (b + 21) = 0 := by
    intro a m' ha hsame hne
    rw [hsame.entry ha hb hne (by decide), hsame.entry ha hb hne (by decide)]
    exact hv b hb hin
  rcases apply_cases v op with h | ⟨path, dirname, tm_info, a, -, hslot, h⟩ |
    ⟨path, dirname, a, -, htarget, -, h⟩ <;> rw [h]
  · exact hv b hb hin
  · by_cases hba : b = a
    · subst hba
      rw [writeEntry_gap (by omega) (by omega) (by omega),
          writeEntry_gap (by omega) (by omega) (by omega)]
      exact hv b hb hin
    · exact hkeep (createSlot_isSlot hslot) writeEntry_outside hba
  · by_cases hba : b = a
    · subst hba
      unfold InImage sizeofDirectoryEntry at *
      exact ⟨erase_inside (by omega) (by unfold sizeofDirectoryEntry; omega),
        erase_inside (by omega) (by unfold sizeofDirectoryEntry; omega)⟩
    · exact hkeep (removeTarget_isSlot htarget) erase_outside hba

/-- **In every reachable image the byte behind a name is 0.** -/
theorem reachable_terminated {v : Volume} (h : fatSystem.Reachable v) : Terminated v.fs.mem := by
  refine h.invariant (I := fun v => Terminated v.fs.mem) ?_ ?_
  · intro v hv
    exact initialized_terminated hv.1
  · intro v op v' hv hstep
    rw [show v' = v.apply op from hstep]
    exact terminated_step op hv

end SystemOS.Fat12.Tables
