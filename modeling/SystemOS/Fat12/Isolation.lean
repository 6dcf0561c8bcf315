/-
  SystemOS.Fat12.Isolation — what an operation in one directory does to the listing of another.

  A directory is given one block when it is created, but its table is 224 entries long, which are
  14 blocks: the table of a directory overlaps the tables of those created after it.  An operation
  stays within its directory when the entry it changes lies in the image and in no other table
  (`Isolated`).

  Main results:
    * `listing_isolated` — then the listings of the other directories stay as they are.
    * `sibling_listed`   — in the image with two directories in the root, a third one created in
      the second shows up in the first.
-/
import SystemOS.Fat12.Tables

namespace SystemOS.Fat12.Isolation

open SystemOS.Lib.ByteMemory SystemOS.Lib.Strings SystemOS.Lib.Transition
open SystemOS.Fat12.FileSystem SystemOS.Fat12.Tables

/-! ## §1. Paths. -/

/-- The sequences of tokens that paths consist of. -/
def IsPath (ts : List (List UInt8)) : Prop := ∀ t ∈ ts, t ≠ [] ∧ ∀ b ∈ t, b ≠ 0 ∧ b ≠ backslash

theorem tokens_isPath (path : CString) : IsPath (tokens path) := by
  intro t ht
  obtain ⟨hne, hbytes⟩ := words_spec ht
  refine ⟨hne, fun b hb => ⟨?_, (hbytes b hb).2⟩⟩
  intro heq
  subst heq
  exact path.no_nul (hbytes 0 hb).1

theorem IsPath.token {before behind : List (List UInt8)} {t : List UInt8}
    (h : IsPath (before ++ t :: behind)) : t ≠ [] ∧ 0 ∉ t := by
  obtain ⟨hne, hbytes⟩ := h t (List.mem_append_right _ List.mem_cons_self)
  exact ⟨hne, fun h0 => (hbytes 0 h0).1 rfl⟩

theorem IsPath.front {before behind : List (List UInt8)} (h : IsPath (before ++ behind)) :
    IsPath before := fun t ht => h t (List.mem_append_left _ ht)

/-- The name that `strncpy` leaves in the entry. -/
def stored (dirname : CString) : List UInt8 := dirname.bytes.take MAX_FILENAME

theorem stored_no_nul (dirname : CString) : 0 ∉ stored dirname := fun h =>
  dirname.no_nul (List.mem_of_mem_take h)

/-- The directory that the operation works in. -/
def parent : Op → CString
  | .create path _ _ => path
  | .remove path _ => path

/-- The removed directory, and those below it. -/
def Drops : Op → List (List UInt8) → Prop
  | .create _ _ _, _ => False
  | .remove path dirname, ts => tokens path ++ [stored dirname] <+: ts

/-! ## §2. The condition. -/

/-- Only directories from `owners` have the entry `a` in their tables. -/
def OnlyIn (m : Mem) (a : Nat) (owners : List (List UInt8) → Prop) : Prop :=
  ∀ ts dir, IsPath ts → walk m rootDir ts = some dir → a ∈ table dir → owners ts

/-- The entry that the operation changes lies in the image and in no other directory's table, and
    a new entry does not come before one of the same name.  The empty name makes no live entry. -/
def Isolated (fs : Image) : Op → Prop
  | .create path dirname _ => ∀ dir a, find_directory fs path = some dir →
      createSlot fs path = some a → InImage a ∧ (dirname.bytes = [] ∨
        OnlyIn fs.mem a (· = tokens path)
          ∧ ∀ b, (table dir).find? (isNamed fs.mem (stored dirname)) = some b → b < a)
  | .remove path dirname => ∀ a, removeTarget fs path dirname = some a →
      is_empty fs.mem a = true → InImage a ∧ (dirname.bytes = [] ∨
        OnlyIn fs.mem a fun ts => ts = tokens path ∨ tokens path ++ [stored dirname] <+: ts)

/-! ## §3. Names in the changed entry. -/

variable {m m' : Mem} {a : Nat} {token : List UInt8} {fs fs' : Image} {path dirname q : CString}
  {tm_info : tm}

theorem isNamed_of_nul (htoken : token ≠ [] ∧ 0 ∉ token) (h : m a = 0) :
    isNamed m token a = false := by
  unfold isNamed
  rw [strEq_of_nul htoken.2 htoken.1 h, Bool.false_and]

/-- An entry of one name has no other. -/
theorem isNamed_of_ne {s : List UInt8} (hs : 0 ∉ s) (htoken : 0 ∉ token)
    (h : strEq m a s = true) (hne : token ≠ s) : isNamed m token a = false := by
  have hname : strEq m a token = false := by
    by_contra hcon
    exact hne (strEq_unique htoken hs (by simpa using hcon) h)
  unfold isNamed
  rw [hname, Bool.false_and]

/-- The name under which a new entry is found. -/
theorem writeEntry_stored (h : fs.mem (a + 8) = 0) :
    strEq (writeEntry fs a dirname tm_info).mem a (stored dirname) = true := by
  refine strEq_padded (fun i hi => writeEntry_name hi) ?_
  rw [show MAX_FILENAME = 8 from rfl, writeEntry_gap (by omega) (by omega) (by omega)]
  exact h

/-! ## §4. The listing of another directory. -/

/-- A lookup that agrees where it comes by the changed entry agrees. -/
theorem find_directory_frame (hsame : SameOutside a fs.mem fs'.mem) (ha : IsSlot a)
    (hin : InImage a) (hm : Terminated fs.mem)
    (hstep : ∀ before token behind dir, tokens q = before ++ token :: behind →
      walk fs.mem rootDir before = some dir → a ∈ table dir →
        child fs'.mem dir token = child fs.mem dir token) :
    find_directory fs' q = find_directory fs q := by
  rw [find_directory_eq, find_directory_eq]
  refine walk_congr fun before token behind dir hts hdir => ?_
  have htoken := IsPath.token (hts ▸ tokens_isPath q)
  by_cases hat : a ∈ table dir
  · exact hstep before token behind dir hts hdir hat
  · exact child_frame hsame ha hin hm (walk_isTable (.inl rfl) hdir).1 htoken.2
      fun h => absurd h hat

/-- **A listing that is looked up as before and does not show the changed entry is the same.** -/
theorem list_directory_frame (hsame : SameOutside a fs.mem fs'.mem) (ha : IsSlot a)
    (hfind : find_directory fs' q = find_directory fs q)
    (hat : ∀ dir, find_directory fs q = some dir → a ∈ table dir →
      live fs.mem a = false ∧ live fs'.mem a = false) :
    list_directory fs' q = list_directory fs q := by
  unfold list_directory
  rw [hfind]
  refine Option.map_congr fun dir hdir => ?_
  exact listing_frame hsame ha (find_directory_isTable hdir) (hat dir hdir)

/-- A change of an entry that is empty before and after is not seen. -/
theorem list_directory_of_empty (hsame : SameOutside a fs.mem fs'.mem) (ha : IsSlot a)
    (hin : InImage a) (hm : Terminated fs.mem) (h : fs.mem a = 0) (h' : fs'.mem a = 0) :
    list_directory fs' q = list_directory fs q := by
  refine list_directory_frame hsame ha ?_ fun _ _ _ =>
    ⟨live_eq_false_iff.mpr h, live_eq_false_iff.mpr h'⟩
  refine find_directory_frame hsame ha hin hm fun before token behind dir hts hdir _ => ?_
  have htoken := IsPath.token (hts ▸ tokens_isPath q)
  exact child_frame hsame ha hin hm (walk_isTable (.inl rfl) hdir).1 htoken.2 fun _ =>
    ⟨isNamed_of_nul htoken h, isNamed_of_nul htoken h'⟩

theorem walk_append (m : Mem) (ts us : List (List UInt8)) (dir : Nat) :
    walk m dir (ts ++ us) = (walk m dir ts).bind fun d => walk m d us := by
  induction ts generalizing dir with
  | nil => rfl
  | cons t ts ih =>
    rw [List.cons_append, walk_cons, walk_cons]
    cases child m dir t with
    | none => rfl
    | some next => exact ih next

/-- A directory made in `path` is not seen in the listing of another one. -/
theorem list_directory_create (hm : Terminated fs.mem) (hslot : createSlot fs path = some a)
    (hin : InImage a) (hown : OnlyIn fs.mem a (· = tokens path))
    (hfirst : ∀ dir b, find_directory fs path = some dir →
      (table dir).find? (isNamed fs.mem (stored dirname)) = some b → b < a)
    (hq : (find_directory fs q).isSome) (hne : tokens q ≠ tokens path) :
    list_directory (writeEntry fs a dirname tm_info) q = list_directory fs q := by
  have ha := createSlot_isSlot hslot
  obtain ⟨-, -, -, hnul⟩ := createSlot_spec hslot
  have hname : strEq (writeEntry fs a dirname tm_info).mem a (stored dirname) = true :=
    writeEntry_stored (hm a ha hin).1
  have hpath := tokens_isPath q
  refine list_directory_frame writeEntry_outside ha ?_ fun dir hdir hat => ?_
  · refine find_directory_frame writeEntry_outside ha hin hm ?_
    intro before token behind dir hts hdir hat
    have hbefore : before = tokens path := hown before dir (hts ▸ hpath).front hdir hat
    have htoken := IsPath.token (hts ▸ hpath)
    have hdirTable := (walk_isTable (.inl rfl) hdir).1
    by_cases hstored : token = stored dirname
    · -- the other directory lies below one of the new name, which is an earlier entry
      rw [find_directory_eq, hts, walk_append, hdir, Option.bind_some, walk_cons] at hq
      obtain ⟨d, hd⟩ := Option.isSome_iff_exists.mp hq
      obtain ⟨next, hchild, -⟩ := Option.bind_eq_some_iff.mp hd
      obtain ⟨b, hb, -⟩ := Option.map_eq_some_iff.mp hchild
      refine child_frame_before writeEntry_outside ha hin hm hdirTable htoken.2 hb ?_
      refine hfirst dir b ?_ (hstored ▸ hb)
      rw [find_directory_eq, ← hbefore]
      exact hdir
    · refine child_frame writeEntry_outside ha hin hm hdirTable htoken.2 fun _ => ?_
      exact ⟨isNamed_of_nul htoken hnul,
        isNamed_of_ne (stored_no_nul dirname) htoken.2 hname hstored⟩
  · rw [find_directory_eq] at hdir
    exact absurd (hown _ dir hpath hdir hat) hne

/-- A removal in `path` is not seen in the listing of another directory that stays. -/
theorem list_directory_remove (hm : Terminated fs.mem)
    (htarget : removeTarget fs path dirname = some a) (hin : InImage a)
    (hown : OnlyIn fs.mem a fun ts =>
      ts = tokens path ∨ tokens path ++ [stored dirname] <+: ts)
    (hne : tokens q ≠ tokens path) (hkeep : ¬ tokens path ++ [stored dirname] <+: tokens q) :
    list_directory (erase fs a) q = list_directory fs q := by
  have ha := removeTarget_isSlot htarget
  obtain ⟨-, -, -, hsel, -⟩ := removeTarget_spec htarget
  have hname : strEq fs.mem a (stored dirname) = true := strEq_of_strnEq hsel (hm a ha hin).1
  have hnul : (erase fs a).mem a = 0 := erase_inside (Nat.le_refl a) (Nat.lt_add_of_pos_right
    (by decide))
  have hpath := tokens_isPath q
  -- neither the directory nor one on the way to it is the removed one or below it
  have howner : ∀ before behind dir, tokens q = before ++ behind →
      walk fs.mem rootDir before = some dir → a ∈ table dir → before = tokens path := by
    intro before behind dir hts hdir hat
    rcases hown before dir (hts ▸ hpath).front hdir hat with h | h
    · exact h
    · exact absurd (h.trans (hts ▸ List.prefix_append before behind)) hkeep
  refine list_directory_frame erase_outside ha ?_ fun dir hdir hat => ?_
  · refine find_directory_frame erase_outside ha hin hm ?_
    intro before token behind dir hts hdir hat
    have hbefore := howner before (token :: behind) dir hts hdir hat
    have htoken := IsPath.token (hts ▸ hpath)
    have hstored : token ≠ stored dirname := by
      intro heq
      subst heq
      refine hkeep ⟨behind, ?_⟩
      rw [hts, hbefore, List.append_assoc, List.singleton_append]
    refine child_frame erase_outside ha hin hm (walk_isTable (.inl rfl) hdir).1 htoken.2
      fun _ => ?_
    exact ⟨isNamed_of_ne (stored_no_nul dirname) htoken.2 hname hstored,
      isNamed_of_nul htoken hnul⟩
  · rw [find_directory_eq] at hdir
    exact absurd (howner (tokens q) [] dir (List.append_nil _).symm hdir hat) hne

/-- **An isolated operation leaves the listings of the other directories alone**, in every
    reachable image. -/
theorem listing_isolated {v : Volume} (hv : fatSystem.Reachable v) {op : Op}
    (hop : Isolated v.fs op) {q : CString} (hq : (find_directory v.fs q).isSome)
    (hne : tokens q ≠ tokens (parent op)) (hkeep : ¬ Drops op (tokens q)) :
    list_directory (v.apply op).fs q = list_directory v.fs q := by
  have hm := reachable_terminated hv
  rcases apply_cases v op with h | ⟨path, dirname, tm_info, a, rfl, hslot, h⟩ |
    ⟨path, dirname, a, rfl, htarget, hempty, h⟩ <;> rw [h]
  · obtain ⟨dir, hdir, -, hnul⟩ := createSlot_spec hslot
    obtain ⟨hin, hname | ⟨hown, hfirst⟩⟩ := hop dir a hdir hslot
    · exact list_directory_of_empty writeEntry_outside (createSlot_isSlot hslot) hin hm hnul
        (live_eq_false_iff.mp (writeEntry_dead hname))
    · refine list_directory_create hm hslot hin hown (fun dir' b hdir' hb => ?_) hq hne
      rw [hdir] at hdir'
      cases hdir'
      exact hfirst b hb
  · obtain ⟨hin, hname | hown⟩ := hop a htarget hempty
    · obtain ⟨-, -, -, hsel, -⟩ := removeTarget_spec htarget
      rw [hname] at hsel
      exact list_directory_of_empty erase_outside (removeTarget_isSlot htarget) hin hm
        (eq_of_beq hsel) (erase_inside (Nat.le_refl a) (Nat.lt_add_of_pos_right (by decide)))
    · exact list_directory_remove hm htarget hin hown hne hkeep

/-! ## §5. Two directories in the root. -/

/-- An entry of the root directory lies in no other directory's table. -/
theorem onlyIn_root (m : Mem) (ha : a ∈ table rootDir) : OnlyIn m a (· = []) := by
  intro ts dir _ hdir hat
  rcases (walk_isTable (.inl rfl) hdir).2 with ⟨hts, -⟩ | hge
  · exact hts
  · obtain ⟨i, -, rfl⟩ := mem_table.mp hat
    have := root_slot ha
    unfold sizeofDirectoryEntry at this
    omega

def onlyA : Volume := blank.apply (.create root nameA midnight)

def siblings : Volume := onlyA.apply (.create root nameB midnight)

theorem onlyA_reachable : fatSystem.Reachable onlyA := .next (.start blank_init) rfl

theorem siblings_reachable : fatSystem.Reachable siblings := .next onlyA_reachable rfl

theorem listing_isolated_siblings :
    list_directory (onlyA.apply (.create root nameB midnight)).fs pathA
      = list_directory onlyA.fs pathA := by
  refine listing_isolated onlyA_reachable ?_ (by decide +kernel) (by decide) not_false
  intro dir a hdir hslot
  have hslot' : createSlot onlyA.fs root = some (rootDir + 32) := by decide +kernel
  have hnone : (table rootDir).find? (isNamed onlyA.fs.mem (stored nameB)) = none := by
    decide +kernel
  rw [hslot'] at hslot
  cases hslot
  cases hdir
  refine ⟨by decide, .inr ⟨onlyIn_root _ (by decide), fun b hb => ?_⟩⟩
  rw [hnone] at hb
  cases hb

/-- **A directory made in the second of two directories is listed in the first.** -/
theorem sibling_listed :
    fatSystem.Reachable siblings ∧ (find_directory siblings.fs pathB).isSome
      ∧ tokens pathA ≠ tokens pathB ∧ list_directory siblings.fs pathA = some []
      ∧ list_directory (siblings.apply (.create pathB nameA midnight)).fs pathA ≠ some [] :=
  ⟨siblings_reachable, by decide +kernel, by decide, by decide +kernel, by decide +kernel⟩

end SystemOS.Fat12.Isolation
