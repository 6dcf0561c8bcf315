/-
  SystemOS.Fat12.Names — directories of one name in one table.

  `create_directory` takes the first empty entry of the parent's table and looks at no name in it,
  while `find_directory` and `remove_directory` stop at the first entry of a name: of two
  directories with the same stored name, the second is out of reach.

  Main results:
    * `tableFrom_create`   — the tables of the tree after a creation: those of the tree before, and
      those that the block given to the new directory leads to.
    * `namesDistinct_iff`  — when a creation keeps the names of every table distinct.
    * `names_distinct`     — runs of such steps do, and no other step does.
-/
import SystemOS.Fat12.Bounds
import SystemOS.Fat12.Isolation

namespace SystemOS.Fat12.Names

open SystemOS.Lib.ByteMemory SystemOS.Lib.Strings SystemOS.Lib.Transition
open SystemOS.Fat12.FileSystem SystemOS.Fat12.Tables SystemOS.Fat12.Blocks SystemOS.Fat12.Bounds
open SystemOS.Fat12.Isolation (stored)

/-! ## §1. Names and tables. -/

/-- The name that an entry holds. -/
def storedName (m : Mem) (a : Nat) : List UInt8 := (bytesAt m a MAX_FILENAME).takeWhile (· ≠ 0)

/-- A live directory entry. -/
def IsDir (m : Mem) (a : Nat) : Prop := live m a = true ∧ file_attributes m a = 0x10

/-- The tables that live directory entries lead to, from the table `start` on. -/
inductive TableFrom (m : Mem) (start : Nat) : Nat → Prop
  | self : TableFrom m start start
  | sub {t e : Nat} : TableFrom m start t → e ∈ table t → IsDir m e →
      TableFrom m start (tableOf m e)

/-- The live directories of a table have different names. -/
def Distinct (m : Mem) (t : Nat) : Prop :=
  ∀ e ∈ table t, ∀ f ∈ table t, e ≠ f → IsDir m e → IsDir m f → storedName m e ≠ storedName m f

/-- So do those of every directory of the tree. -/
def NamesDistinct (m : Mem) : Prop := ∀ t, TableFrom m rootDir t → Distinct m t

/-- The table that a new entry at `a` refers to. -/
def givenTable (fs : Image) (a : Nat) : Nat := dataPos + (nextBlock fs a).toNat * BYTES_PER_SECTOR

/-- No table with the new entry, in the tree or reached through the block that the new directory
    gets, has a live directory of that name, and none of the latter has two of one name. -/
def NameFree (fs : Image) : Op → Prop
  | .create path dirname _ => ∀ a, createSlot fs path = some a → dirname.bytes ≠ [] →
      (∀ t, TableFrom fs.mem rootDir t ∨ TableFrom fs.mem (givenTable fs a) t → a ∈ table t →
          ∀ f ∈ table t, IsDir fs.mem f → storedName fs.mem f ≠ stored dirname)
        ∧ ∀ t, TableFrom fs.mem (givenTable fs a) t → Distinct fs.mem t
  | .remove _ _ => True

variable {m m' : Mem} {v : Volume} {fs : Image} {op : Op} {a b start t : Nat}
  {path dirname : CString} {tm_info : tm}

theorem TableFrom.isTable (hstart : IsTable start) (h : TableFrom m start t) : IsTable t := by
  cases h with
  | self => exact hstart
  | sub _ _ _ => exact isTable_tableOf m _

theorem TableFrom.trans (h : TableFrom m start t) {u : Nat} (h' : TableFrom m t u) :
    TableFrom m start u := by
  induction h' with
  | self => exact h
  | sub _ he hdir ih => exact .sub ih he hdir

/-- The directories of the tree have their tables among these. -/
theorem tableFrom_of_inTree (h : InTree m a) (hattr : file_attributes m a = 0x10) :
    TableFrom m rootDir (tableOf m a) := by
  induction h with
  | top ha hlive => exact .sub .self ha ⟨hlive, hattr⟩
  | nested _ hdir ha hlive ih => exact .sub (ih hdir) ha ⟨hlive, hattr⟩

/-- A lookup arrives at one of them. -/
theorem find_directory_tableFrom {dir : Nat} (h : find_directory fs path = some dir) :
    TableFrom fs.mem rootDir dir := by
  rw [find_directory_eq] at h
  rcases walk_inTree (fun t ht => tokens_no_nul path t ht) h (.inl rfl) with
    rfl | ⟨e, htree, hattr, rfl⟩
  · exact .self
  · exact tableFrom_of_inTree htree hattr

/-! ## §2. What a change of one entry does to names and tables. -/

theorem storedName_frame (hsame : SameOutside a m m') (ha : IsSlot a) (hb : IsSlot b)
    (hne : b ≠ a) : storedName m' b = storedName m b := by
  unfold storedName bytesAt
  refine congrArg _ (List.map_congr_left fun i hi => ?_)
  rw [List.mem_range] at hi
  unfold MAX_FILENAME at hi
  exact hsame.entry ha hb hne (by unfold sizeofDirectoryEntry; omega)

theorem isDir_frame (hsame : SameOutside a m m') (ha : IsSlot a) (hb : IsSlot b) (hne : b ≠ a) :
    IsDir m' b ↔ IsDir m b := by
  unfold IsDir
  rw [live_frame hsame ha hb hne,
    show file_attributes m' b = file_attributes m b from hsame.entry ha hb hne (by decide)]

/-- A creation stores the name cut to eight bytes. -/
theorem writeEntry_storedName :
    storedName (writeEntry fs a dirname tm_info).mem a = stored dirname := by
  -- the eight bytes are the name, filled up with zeros
  have hbytes : bytesAt (writeEntry fs a dirname tm_info).mem a MAX_FILENAME
      = padded MAX_FILENAME dirname.bytes := by
    refine List.ext_getElem? fun i => ?_
    rcases Nat.lt_or_ge i MAX_FILENAME with hi | hi
    · rw [writeEntry_name hi, bytesAt, List.getElem?_map, List.getElem?_range hi, Option.map_some]
    · rw [List.getElem?_eq_none (by simpa [bytesAt] using hi),
        List.getElem?_eq_none (by simpa using hi)]
  have hnul : ∀ c ∈ stored dirname, (decide (c ≠ 0)) = true := fun c hc => by
    simpa using ne_of_mem_of_not_mem hc (Isolation.stored_no_nul dirname)
  unfold storedName
  rw [hbytes, padded, List.take_append, List.take_replicate]
  show (stored dirname ++ List.replicate _ 0).takeWhile _ = _
  rw [List.takeWhile_append_of_pos hnul]
  cases min (MAX_FILENAME - dirname.bytes.length) MAX_FILENAME <;> simp [stored, List.replicate_succ]

/-- The tables that a walk passes stay when it does not use the changed entry. -/
theorem TableFrom.frame (hsame : SameOutside a m m') (ha : IsSlot a) (hstart : IsTable start)
    (hdead : live m a = false) (h : TableFrom m start t) : TableFrom m' start t := by
  induction h with
  | self => exact .self
  | @sub t e ht he hdir ih =>
    have hslot : IsSlot e := ⟨t, ht.isTable hstart, he⟩
    have hne : e ≠ a := ne_of_live_of_dead hdir.1 hdead
    rw [← tableOf_frame hsame ha hslot hne]
    exact .sub ih he ((isDir_frame hsame ha hslot hne).mpr hdir)

/-- An entry that is empty after the change leaves no new tables, -/
theorem TableFrom.of_dead (hsame : SameOutside a m m') (ha : IsSlot a) (hstart : IsTable start)
    (hdead : live m' a = false) (h : TableFrom m' start t) : TableFrom m start t :=
  h.frame (fun x hx => (hsame x hx).symm) ha hstart hdead

/-- and no new names. -/
theorem namesDistinct_of_dead (hsame : SameOutside a m m') (ha : IsSlot a)
    (hdead : live m' a = false) (h : NamesDistinct m) : NamesDistinct m' := by
  intro t ht e he f hf hne hdire hdirf
  have htable := ht.isTable (.inl rfl)
  have hes : IsSlot e := ⟨t, htable, he⟩
  have hfs : IsSlot f := ⟨t, htable, hf⟩
  have hea := ne_of_live_of_dead hdire.1 hdead
  have hfa := ne_of_live_of_dead hdirf.1 hdead
  rw [storedName_frame hsame ha hes hea, storedName_frame hsame ha hfs hfa]
  exact h t (ht.of_dead hsame ha (.inl rfl) hdead) e he f hf hne
    ((isDir_frame hsame ha hes hea).mp hdire) ((isDir_frame hsame ha hfs hfa).mp hdirf)

/-! ## §3. Creation. -/

/-- What a creation with a non-empty name changes: the empty entry `a` of a table of the tree
    becomes a directory of the given table and name. -/
structure Created (m m' : Mem) (a given : Nat) (name : List UInt8) : Prop where
  same : SameOutside a m m'
  parent : ∃ dir, TableFrom m rootDir dir ∧ a ∈ table dir
  empty : live m a = false
  dir : IsDir m' a
  given : tableOf m' a = given
  name : storedName m' a = name

theorem created (hslot : createSlot fs path = some a) (hname : dirname.bytes ≠ []) :
    Created fs.mem (writeEntry fs a dirname tm_info).mem a (givenTable fs a) (stored dirname) := by
  obtain ⟨dir, hdir, hat, hnul⟩ := createSlot_spec hslot
  refine ⟨writeEntry_outside, ⟨dir, find_directory_tableFrom hdir, hat⟩, ?_,
    ⟨writeEntry_live.mpr hname, writeEntry_attributes⟩, ?_, writeEntry_storedName⟩
  · exact live_eq_false_iff.mpr hnul
  · unfold tableOf givenTable
    rw [writeEntry_nextBlock]

variable {given : Nat} {name : List UInt8}

theorem Created.isSlot (h : Created m m' a given name) : IsSlot a := by
  obtain ⟨dir, hdir, hat⟩ := h.parent
  exact ⟨dir, hdir.isTable (.inl rfl), hat⟩

/-- **The tables after a creation** are those before and those that the given table leads to. -/
theorem tableFrom_create (h : Created m m' a given name) :
    TableFrom m' rootDir t ↔ TableFrom m rootDir t ∨ TableFrom m given t := by
  have ha := h.isSlot
  have hgiven : IsTable given := h.given ▸ isTable_tableOf m' a
  constructor
  · intro ht
    induction ht with
    | self => exact .inl .self
    | @sub t e ht he hdir ih =>
      by_cases hea : e = a
      · rw [hea, h.given]
        exact .inr .self
      · have hes : IsSlot e := ⟨t, ht.isTable (.inl rfl), he⟩
        rw [tableOf_frame h.same ha hes hea]
        have hold := (isDir_frame h.same ha hes hea).mp hdir
        exact ih.imp (fun ht => .sub ht he hold) (fun ht => .sub ht he hold)
  · intro ht
    rcases ht with ht | ht
    · exact ht.frame h.same ha (.inl rfl) h.empty
    · -- the new directory leads from its parent to the given table
      obtain ⟨dir, hdir, hat⟩ := h.parent
      have hparent := hdir.frame h.same ha (.inl rfl) h.empty
      have hnew : TableFrom m' rootDir given := h.given ▸ .sub hparent hat h.dir
      exact hnew.trans (ht.frame h.same ha hgiven h.empty)

/-- The names of a table after a creation. -/
theorem distinct_create (h : Created m m' a given name) (ht : IsTable t) :
    Distinct m' t ↔ Distinct m t
      ∧ (a ∈ table t → ∀ f ∈ table t, IsDir m f → storedName m f ≠ name) := by
  have ha := h.isSlot
  have hne : ∀ {f : Nat}, IsDir m f → f ≠ a := fun hdir => ne_of_live_of_dead hdir.1 h.empty
  have hslot : ∀ {f : Nat}, f ∈ table t → IsSlot f := fun hf => ⟨t, ht, hf⟩
  have hname : ∀ {f : Nat}, f ∈ table t → f ≠ a → storedName m' f = storedName m f :=
    fun hf hfa => storedName_frame h.same ha (hslot hf) hfa
  constructor
  · intro hd
    refine ⟨fun e he f hf hef hdire hdirf => ?_, fun hat f hf hdirf => ?_⟩
    · rw [← hname he (hne hdire), ← hname hf (hne hdirf)]
      exact hd e he f hf hef ((isDir_frame h.same ha (hslot he) (hne hdire)).mpr hdire)
        ((isDir_frame h.same ha (hslot hf) (hne hdirf)).mpr hdirf)
    · rw [← hname hf (hne hdirf), ← h.name]
      exact hd f hf a hat (hne hdirf) ((isDir_frame h.same ha (hslot hf) (hne hdirf)).mpr hdirf)
        h.dir
  · -- of two entries, at most one is the new one
    intro hd e he f hf hef hdire hdirf
    obtain ⟨hold, hnew⟩ := hd
    by_cases hea : e = a
    · subst hea
      have hfa : f ≠ e := hef.symm
      rw [h.name, hname hf hfa]
      exact (hnew he f hf ((isDir_frame h.same ha (hslot hf) hfa).mp hdirf)).symm
    · have hdire' := (isDir_frame h.same ha (hslot he) hea).mp hdire
      rw [hname he hea]
      by_cases hfa : f = a
      · subst hfa
        rw [h.name]
        exact hnew hf e he hdire'
      · rw [hname hf hfa]
        exact hold e he f hf hef hdire' ((isDir_frame h.same ha (hslot hf) hfa).mp hdirf)

/-- **Creation and names.**  With distinct names before, they are distinct after a creation exactly
    when the name is free in every table that then has the new entry, and the tables that the given
    block leads to have distinct names. -/
theorem namesDistinct_iff (h : Created m m' a given name) (hold : NamesDistinct m) :
    NamesDistinct m' ↔
      (∀ t, TableFrom m rootDir t ∨ TableFrom m given t → a ∈ table t →
          ∀ f ∈ table t, IsDir m f → storedName m f ≠ name)
        ∧ ∀ t, TableFrom m given t → Distinct m t := by
  have hgiven : IsTable given := h.given ▸ isTable_tableOf m' a
  have htable : ∀ {t}, TableFrom m rootDir t ∨ TableFrom m given t → IsTable t := fun ht =>
    ht.elim (fun ht => ht.isTable (.inl rfl)) (fun ht => ht.isTable hgiven)
  constructor
  · intro hnew
    have hsplit := fun t (ht : TableFrom m rootDir t ∨ TableFrom m given t) =>
      (distinct_create h (htable ht)).mp (hnew t ((tableFrom_create h).mpr ht))
    exact ⟨fun t ht => (hsplit t ht).2, fun t ht => (hsplit t (.inr ht)).1⟩
  · intro hfree t ht
    have ht' := (tableFrom_create h).mp ht
    refine (distinct_create h (htable ht')).mpr ⟨?_, hfree.1 t ht'⟩
    exact ht'.elim (hold t) (hfree.2 t)

/-! ## §4. Runs. -/

/-- **Names in one step**: they stay distinct exactly when the step meets the condition. -/
theorem namesDistinct_step (hv : NamesDistinct v.fs.mem) :
    NamesDistinct (v.apply op).fs.mem ↔ NameFree v.fs op := by
  cases op with
  | remove path dirname =>
    refine ⟨fun _ => trivial, fun _ => ?_⟩
    rcases apply_cases v (.remove path dirname) with h | ⟨_, _, _, _, hop, _⟩ |
      ⟨_, _, a, hop, htarget, _, h⟩
    · rw [h]
      exact hv
    · cases hop
    · cases hop
      rw [h]
      exact namesDistinct_of_dead erase_outside (removeTarget_isSlot htarget) erase_not_live hv
  | create path dirname tm_info =>
    cases hslot : createSlot v.fs path with
    | none =>
      have h : (v.apply (.create path dirname tm_info)).fs = v.fs := by
        simp only [Volume.apply, create_directory, hslot]
      rw [h]
      refine ⟨fun _ a ha _ => ?_, fun _ => hv⟩
      rw [hslot] at ha
      cases ha
    | some a =>
      rw [apply_create hslot]
      by_cases hname : dirname.bytes = []
      · -- the empty name leaves the entry empty
        exact ⟨fun _ _ _ hne => absurd hname hne, fun _ => namesDistinct_of_dead writeEntry_outside
          (createSlot_isSlot hslot) (writeEntry_dead hname) hv⟩
      · rw [namesDistinct_iff (created hslot hname) hv]
        refine ⟨fun hfree b hb _ => ?_, fun hfree => hfree a hslot hname⟩
        rw [hslot] at hb
        cases hb
        exact hfree

theorem initialized_namesDistinct (h : fatSystem.init v) : NamesDistinct v.fs.mem := by
  have hdead : ∀ a ∈ table rootDir, ¬ IsDir v.fs.mem a := by
    intro a ha hdir
    have hin : InImage a := TableInside.inImage (.inl rfl) ha
    cases (initialized_dead h.1 ⟨rootDir, .inl rfl, ha⟩ hin).symm.trans hdir.1
  -- an empty root leads to no other table
  have hroot : ∀ t, TableFrom v.fs.mem rootDir t → t = rootDir := by
    intro t ht
    induction ht with
    | self => rfl
    | sub _ he hdir ih =>
      rw [ih] at he
      exact absurd hdir (hdead _ he)
  intro t ht e he
  rw [hroot t ht] at he
  exact fun f _ _ hdir => absurd hdir (hdead e he)

/-- **Names in a run.**  The live directories of every table have different stored names in every
    state of a run whose creations take free names; and the first creation that does not leaves two
    of one name. -/
theorem names_distinct (v : Volume) :
    ((fatSystem.restrict fun v op => NameFree v.fs op).Reachable v → NamesDistinct v.fs.mem)
      ∧ ∀ op, NamesDistinct v.fs.mem → ¬ NameFree v.fs op → ¬ NamesDistinct (v.apply op).fs.mem := by
  refine ⟨fun hv => ?_, fun op hdistinct hop hnew => hop ((namesDistinct_step hdistinct).mp hnew)⟩
  refine hv.invariant (I := fun v => NamesDistinct v.fs.mem) ?_ ?_
  · intro v hv
    exact initialized_namesDistinct hv
  · intro v op v' hv hstep
    rw [show v' = v.apply op from hstep.2]
    exact (namesDistinct_step hv).mpr hstep.1

/-- Twice the same directory in the root. -/
theorem name_twice : ¬ ∀ v, fatSystem.Reachable v → NamesDistinct v.fs.mem := by
  intro hclaim
  let twice := (Isolation.onlyA.apply (.create root nameA midnight))
  have hreach : fatSystem.Reachable twice := .next Isolation.onlyA_reachable rfl
  have hfirst : live twice.fs.mem rootDir = true ∧ file_attributes twice.fs.mem rootDir = 0x10 := by
    decide +kernel
  have hsecond : live twice.fs.mem (rootDir + 32) = true
      ∧ file_attributes twice.fs.mem (rootDir + 32) = 0x10 := by decide +kernel
  have hsame : storedName twice.fs.mem rootDir = storedName twice.fs.mem (rootDir + 32) := by
    decide +kernel
  exact hclaim twice hreach rootDir .self rootDir (by decide) (rootDir + 32) (by decide) (by decide)
    hfirst hsecond hsame

end SystemOS.Fat12.Names
