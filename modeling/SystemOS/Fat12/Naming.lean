/-
  SystemOS.Fat12.Naming — a new directory, looked up and removed under the name it was given.

  `create_directory` stores eight bytes of the name, `find_directory` compares the whole name with
  `strcmp`, and `remove_directory` compares eight bytes with `strncmp`.  A longer name is stored cut
  and selected for removal, but not found.

  Main results:
    * `agrees_iff`     — one creation, for an entry inside the image that does not come before the
      directories on its way.
    * `names_agree`    — that, and the runs in which every new entry is such a one.
    * `long_name_lost` — a name of nine bytes.
-/
import SystemOS.Fat12.Ascent
import SystemOS.Fat12.Lookup

namespace SystemOS.Fat12.Naming

open SystemOS.Lib.ByteMemory SystemOS.Lib.Strings SystemOS.Lib.Transition
open SystemOS.Fat12.FileSystem SystemOS.Fat12.Tables SystemOS.Fat12.Blocks SystemOS.Fat12.Bounds
open SystemOS.Fat12.Isolation SystemOS.Fat12.Lookup SystemOS.Fat12.Ascent

/-! ## §1. What is asked for. -/

/-- The new entry `a` is found under the name, and is the one to be removed under it. -/
def Agrees (fs : Image) (path name : CString) (tm_info : tm) (a : Nat) : Prop :=
  let fs' := create_directory fs path name tm_info
  find_directory fs' (join path name) = some (tableOf fs'.mem a)
    ∧ removeTarget fs' path name = some a

/-- Where the way to `path` passes a table with the entry `a` in it and goes on with the name to be
    stored there, it leaves through an entry before `a`. -/
def OffTheWay (fs : Image) (path name : CString) (a : Nat) : Prop :=
  ∀ before token behind d e, tokens path = before ++ token :: behind →
    walk fs.mem rootDir before = some d → a ∈ table d → token = stored name →
    (table d).find? (isNamed fs.mem token) = some e → e < a

variable {v : Volume} {fs : Image} {path name : CString} {tm_info : tm} {a dir n : Nat}

/-- The first entry that satisfies a test. -/
theorem find_first {p : Nat → Bool} (ha : a ∈ table dir) (hp : p a = true)
    (hbefore : ∀ b ∈ table dir, b < a → p b = false) : (table dir).find? p = some a := by
  obtain ⟨before, behind, hl⟩ := List.append_of_mem ha
  have hsorted := table_sorted dir
  rw [hl, List.pairwise_append] at hsorted
  rw [List.find?_eq_some_iff_append]
  refine ⟨hp, before, behind, hl, fun b hb => ?_⟩
  rw [Bool.not_eq_true']
  refine hbefore b ?_ (hsorted.2.2 b hb a List.mem_cons_self)
  rw [hl]
  exact List.mem_append_left _ hb

/-! ## §2. One creation. -/

section Creation

variable (tm_info : tm) (hm : Terminated fs.mem) (hslot : createSlot fs path = some a) (hin : InImage a)
include hm hslot hin

/-- The way to the parent stays. -/
theorem parent_kept (hway : OffTheWay fs path name a) :
    find_directory (writeEntry fs a name tm_info) path = find_directory fs path := by
  have ha := createSlot_isSlot hslot
  obtain ⟨dir, hdir, -, hnul⟩ := createSlot_spec hslot
  have hname : strEq (writeEntry fs a name tm_info).mem a (stored name) = true :=
    writeEntry_stored (hm a ha hin).1
  refine find_directory_frame writeEntry_outside ha hin hm ?_
  intro before token behind d hts hd hat
  have htoken := IsPath.token (hts ▸ tokens_isPath path)
  have htable := (walk_isTable (.inl rfl) hd).1
  by_cases hstored : token = stored name
  · rw [find_directory_eq, hts, walk_append, hd, Option.bind_some, walk_cons] at hdir
    obtain ⟨next, hchild, -⟩ := Option.bind_eq_some_iff.mp hdir
    obtain ⟨e, hfind, -⟩ := Option.map_eq_some_iff.mp hchild
    exact child_frame_before writeEntry_outside ha hin hm htable htoken.2 hfind
      (hway before token behind d e hts hd hat hstored hfind)
  · refine child_frame writeEntry_outside ha hin hm htable htoken.2 fun _ => ?_
    exact ⟨isNamed_of_nul htoken hnul,
      isNamed_of_ne (stored_no_nul name) htoken.2 hname hstored⟩

/-- A name of at most eight bytes leads to the new entry, in the table it was written to. -/
theorem short_named (hlen : name.bytes.length ≤ MAX_FILENAME) :
    isNamed (writeEntry fs a name tm_info).mem name.bytes a = true := by
  have hname : strEq (writeEntry fs a name tm_info).mem a (stored name) = true :=
    writeEntry_stored (hm a (createSlot_isSlot hslot) hin).1
  rw [stored, List.take_of_length_le hlen] at hname
  unfold isNamed
  rw [hname, writeEntry_attributes]
  rfl

/-- The other entries of the table have the name after the creation if they had it before. -/
theorem others_unnamed (hfresh : child fs.mem dir name.bytes = none) (hdir : IsTable dir)
    {b : Nat} (hb : b ∈ table dir) (hne : b ≠ a) :
    isNamed (writeEntry fs a name tm_info).mem name.bytes b = false := by
  have hold : isNamed fs.mem name.bytes b = false := by
    rw [Bool.eq_false_iff]
    exact fun h => child_eq_none_iff.mp hfresh b hb (hasName_iff.mpr h)
  rw [isNamed_frame writeEntry_outside (createSlot_isSlot hslot) hin hm ⟨dir, hdir, hb⟩ hne
    name.no_nul]
  exact hold

theorem child_short (hlen : name.bytes.length ≤ MAX_FILENAME) (ha : a ∈ table dir)
    (hdir : IsTable dir) (hfresh : child fs.mem dir name.bytes = none) :
    child (writeEntry fs a name tm_info).mem dir name.bytes
      = some (tableOf (writeEntry fs a name tm_info).mem a) := by
  have hfind : (table dir).find? (isNamed (writeEntry fs a name tm_info).mem name.bytes)
      = some a := by
    refine find_first ha (short_named tm_info hm hslot hin hlen) fun b hb hlt => ?_
    exact others_unnamed tm_info hm hslot hin hfresh hdir hb (by omega)
  unfold child
  rw [hfind, Option.map_some]

/-- A longer name is the name of no entry. -/
theorem child_long (hlen : MAX_FILENAME < name.bytes.length) (hdir : IsTable dir)
    (hfresh : child fs.mem dir name.bytes = none) :
    child (writeEntry fs a name tm_info).mem dir name.bytes = none := by
  have ha := createSlot_isSlot hslot
  obtain ⟨-, -, -, hnul⟩ := createSlot_spec hslot
  have hname : strEq (writeEntry fs a name tm_info).mem a (stored name) = true :=
    writeEntry_stored (hm a ha hin).1
  have hcut : name.bytes ≠ stored name := by
    intro heq
    have hcount := congrArg List.length heq
    rw [stored, List.length_take] at hcount
    omega
  have hne : name.bytes ≠ [] := List.ne_nil_of_length_pos (by omega)
  rw [child_frame writeEntry_outside ha hin hm hdir name.no_nul fun _ =>
    ⟨isNamed_of_nul ⟨hne, name.no_nul⟩ hnul,
      isNamed_of_ne (stored_no_nul name) name.no_nul hname hcut⟩]
  exact hfresh

/-- The entry that `remove_directory` selects: entries before the new one are matched by `strncmp`
    only if they are by `strcmp`. -/
theorem selected_short (hm' : Terminated (writeEntry fs a name tm_info).mem)
    (hlen : name.bytes.length ≤ MAX_FILENAME) (ha : a ∈ table dir) (hdir : IsTable dir)
    (hfresh : child fs.mem dir name.bytes = none) :
    ((table dir).find? fun b => strnEq (writeEntry fs a name tm_info).mem b MAX_FILENAME name.bytes
      && file_attributes (writeEntry fs a name tm_info).mem b == 0x10) = some a := by
  have hcut : name.bytes.take MAX_FILENAME = name.bytes := List.take_of_length_le hlen
  refine find_first ha ?_ fun b hb hlt => ?_
  · obtain ⟨hname, hattr⟩ := hasName_iff.mpr (short_named tm_info hm hslot hin hlen)
    rw [hattr, strnEq_of_strEq (by rw [hcut]; exact hname)]
    rfl
  · have hslotb : IsSlot b := ⟨dir, hdir, hb⟩
    have hinb : InImage b := by
      unfold InImage at hin ⊢
      omega
    rw [Bool.eq_false_iff]
    intro hsel
    rw [Bool.and_eq_true, beq_iff_eq] at hsel
    have hname := strEq_of_strnEq hsel.1 (hm' b hslotb hinb).1
    rw [hcut] at hname
    have hother := others_unnamed tm_info hm hslot hin hfresh hdir hb (by omega)
    rw [hasName_iff.mp ⟨hname, hsel.2⟩] at hother
    cases hother

end Creation

/-- **One creation**: the three operations agree on a name exactly when it has at most eight
    bytes. -/
theorem agrees_iff (hv : fatSystem.Reachable v) (hslot : createSlot v.fs path = some a)
    (hin : InImage a) (hway : OffTheWay v.fs path name a) (hne : name.bytes ≠ [])
    (hsep : backslash ∉ name.bytes) (hfresh : find_directory v.fs (join path name) = none) :
    Agrees v.fs path name tm_info a ↔ name.bytes.length ≤ MAX_FILENAME := by
  have hm := reachable_terminated hv
  have hm' : Terminated (writeEntry v.fs a name tm_info).mem := by
    have hstep := terminated_step (.create path name tm_info) hm
    rwa [apply_create hslot] at hstep
  obtain ⟨dir, hdir, ha, -⟩ := createSlot_spec hslot
  have htable := find_directory_isTable hdir
  rw [find_directory_child hne hsep, hdir, Option.bind_some] at hfresh
  have hparent := parent_kept tm_info hm hslot hin hway
  rw [hdir] at hparent
  have hcreate : create_directory v.fs path name tm_info = writeEntry v.fs a name tm_info := by
    simp only [create_directory, hslot]
  unfold Agrees
  simp only [hcreate]
  rw [find_directory_child hne hsep, hparent, Option.bind_some]
  constructor
  · intro hagrees
    by_contra hlen
    rw [child_long tm_info hm hslot hin (by omega) htable hfresh] at hagrees
    cases hagrees.1
  · intro hlen
    refine ⟨child_short tm_info hm hslot hin hlen ha htable hfresh, ?_⟩
    unfold removeTarget
    simp only [hparent]
    exact selected_short tm_info hm hslot hin hm' hlen ha htable hfresh

/-! ## §3. Runs. -/

/-- No way leads past the new entry while entries lie below their tables. -/
theorem offTheWay_of_ascending (h : Ascending fs n) (hslot : createSlot fs path = some a) :
    OffTheWay fs path name a := by
  obtain ⟨dir, hdir, ha, hnul⟩ := createSlot_spec hslot
  intro before token behind d e hts hd _ _ hfind
  have hpath := tokens_no_nul path
  rw [hts] at hpath
  have hbefore : ∀ t ∈ before, t ≠ [] ∧ 0 ∉ t := fun t ht => hpath t (List.mem_append_left _ ht)
  have hrest : ∀ t ∈ token :: behind, t ≠ [] ∧ 0 ∉ t := fun t ht =>
    hpath t (List.mem_append_right _ ht)
  have htable := (walk_isTable (.inl rfl) hd).1
  have hinside : TableInside d := walk_inside h.contained hbefore (.inl rfl) (.inl rfl) hd
  have he := List.mem_of_find?_eq_some hfind
  have hin : InImage e := hinside.inImage he
  have hlive := (named_spec (hrest token List.mem_cons_self) (List.find?_some hfind)).1
  -- from the table of `e` on, the way goes up to the table with the new entry
  have hup : tableOf fs.mem e ≤ dir := by
    rw [find_directory_eq, hts, walk_append, hd, Option.bind_some, walk_cons] at hdir
    obtain ⟨next, hchild, hwalk⟩ := Option.bind_eq_some_iff.mp hdir
    unfold child at hchild
    rw [hfind, Option.map_some] at hchild
    cases hchild
    have hlow : TableInside (tableOf fs.mem e) :=
      (tableInside_block _).mpr (h.contained e ⟨d, htable, he⟩ hin hlive)
    exact (h.walk (fun t ht => hrest t (List.mem_cons_of_mem _ ht)) (isTable_tableOf fs.mem e)
      hlow hwalk).1
  have hascends := (h.placed e ⟨d, htable, he⟩ hin hlive).ascends
  have hda := mem_table_ge ha
  have hne : e ≠ a := ne_of_live_of_dead hlive (live_eq_false_iff.mpr hnul)
  omega

/-- **The three operations agree on names of at most eight bytes and on no longer one**: in every
    reachable image for an entry inside the image and off the way, and in every image reached by
    roomy steps for every entry. -/
theorem names_agree (v : Volume) (path name : CString) (tm_info : tm) (a : Nat)
    (hslot : createSlot v.fs path = some a) (hne : name.bytes ≠ []) (hsep : backslash ∉ name.bytes)
    (hfresh : find_directory v.fs (join path name) = none) :
    (fatSystem.Reachable v → InImage a → OffTheWay v.fs path name a →
        (Agrees v.fs path name tm_info a ↔ name.bytes.length ≤ MAX_FILENAME))
      ∧ ((fatSystem.restrict fun v op => Roomy v.fs op).Reachable v →
        (Agrees v.fs path name tm_info a ↔ name.bytes.length ≤ MAX_FILENAME)) := by
  constructor
  · intro hv hin hway
    exact agrees_iff hv hslot hin hway hne hsep hfresh
  · intro hv
    obtain ⟨n, hn⟩ := roomy_ascending hv
    exact agrees_iff hv.of_restrict hslot (hn.slot hslot).1 (offTheWay_of_ascending hn hslot) hne
      hsep hfresh

/-- Nine bytes. -/
def nameNine : CString := ⟨[65, 66, 67, 68, 69, 70, 71, 72, 73], by decide⟩

/-- The first eight of them. -/
def nameEight : CString := ⟨[65, 66, 67, 68, 69, 70, 71, 72], by decide⟩

/-- A name that fills the field, in the blank image. -/
theorem names_agree_eight : Agrees blank.fs root nameEight midnight rootDir :=
  ((names_agree blank root nameEight midnight rootDir (by decide +kernel) (by decide) (by decide)
    (by decide +kernel)).2 (.start blank_init)).mpr (by decide)

/-- **A directory with a name of nine bytes is not found.** -/
theorem long_name_lost : ¬ ∀ (v : Volume) (path name : CString) (tm_info : tm) (a : Nat),
    fatSystem.Reachable v → createSlot v.fs path = some a → name.bytes ≠ [] →
    backslash ∉ name.bytes → find_directory v.fs (join path name) = none →
    Agrees v.fs path name tm_info a := by
  intro hclaim
  have hagrees := hclaim blank root nameNine midnight rootDir (.start blank_init)
    (by decide +kernel) (by decide) (by decide) (by decide +kernel)
  have hlost : find_directory (create_directory blank.fs root nameNine midnight)
      (join root nameNine) = none := by decide +kernel
  cases hlost.symm.trans hagrees.1

end SystemOS.Fat12.Naming
