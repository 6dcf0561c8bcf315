/-
  SystemOS.Fat12.Removal — when `remove_directory` removes the empty directories and no others.

  Before it erases an entry, `remove_directory` scans the root directory for another entry whose
  block number equals the position of the entry to be erased.  It never looks into the table of
  the directory to be removed.  It also takes a name of more than eight bytes for the directory
  whose name is the first eight of them.

  Main results:
    * `removeTarget_eq`         — the entry that it selects.
    * `remove_as_specified_iff` — the scan decides as it should exactly when it finds an entry for
      the non-empty directories only.
    * `nonempty_removed`        — it removes a directory with an entry in it.
-/
import SystemOS.Fat12.Names

namespace SystemOS.Fat12.Removal

open SystemOS.Lib.ByteMemory SystemOS.Lib.Strings SystemOS.Lib.Transition
open SystemOS.Fat12.FileSystem SystemOS.Fat12.Tables
open SystemOS.Fat12.Names (storedName)

/-! ## §1. Removal as it should be. -/

/-- The directory with this name in the directory of the path, the first if there are several. -/
def directoryNamed (fs : Image) (path : CString) (name : List UInt8) : Option Nat :=
  (find_directory fs path).bind fun dir =>
    (table dir).find? fun e => storedName fs.mem e == name && file_attributes fs.mem e == 0x10

/-- No entry of the directory's own table is live. -/
def ownTableEmpty (m : Mem) (a : Nat) : Bool := (table (tableOf m a)).all fun e => !live m e

/-- What removal is for: erase the entry of an empty directory, else change nothing. -/
def removeEmpty (fs : Image) (path dirname : CString) : Image :=
  match directoryNamed fs path dirname.bytes with
  | some a => if live fs.mem a && ownTableEmpty fs.mem a then erase fs a else fs
  | none => fs

/-- Another root entry has the position of `a` as its block number. -/
def Referenced (m : Mem) (a : Nat) : Prop :=
  ∃ e ∈ table rootDir, live m e = true ∧ e ≠ a ∧ (first_block m e).toNat = position a

/-- The directory of the entry `a` holds a live entry. -/
def Occupied (m : Mem) (a : Nat) : Prop := ∃ e ∈ table (tableOf m a), live m e = true

/-! ## §2. The two tests. -/

variable {fs : Image} {m : Mem} {a : Nat} {path dirname : CString}

theorem is_empty_iff : is_empty m a = true ↔ ¬ Referenced m a := by
  unfold is_empty Referenced
  simp only [List.all_eq_true, Bool.not_eq_true', Bool.and_eq_false_iff, bne_eq_false_iff_eq,
    beq_eq_false_iff_ne, not_exists, not_and]
  constructor
  · intro h e he hlive hne heq
    rcases h e he with (h | h) | h
    · rw [hlive] at h
      cases h
    · exact hne h
    · exact h heq
  · intro h e he
    cases hlive : live m e with
    | false => exact .inl (.inl rfl)
    | true =>
      by_cases hne : e = a
      · exact .inl (.inr hne)
      · exact .inr (h e he hlive hne)

theorem ownTableEmpty_iff : ownTableEmpty m a = true ↔ ¬ Occupied m a := by
  unfold ownTableEmpty Occupied
  simp

/-! ## §3. The entry selected. -/

theorem bytesAt_succ (m : Mem) (a n : Nat) : bytesAt m a (n + 1) = m a :: bytesAt m (a + 1) n := by
  unfold bytesAt
  rw [List.range_succ_eq_map, List.map_cons, List.map_map]
  refine congrArg _ (List.map_congr_left fun i _ => congrArg m ?_)
  show a + (i + 1) = a + 1 + i
  omega

/-- `strncmp` compares the name in an array of `n` bytes with the first `n` bytes of the string. -/
theorem strnEq_iff {s : List UInt8} (hs : 0 ∉ s) : ∀ {a n : Nat},
    strnEq m a n s = true ↔ (bytesAt m a n).takeWhile (· ≠ 0) = s.take n := by
  induction s with
  | nil =>
    intro a n
    cases n with
    | zero => exact iff_of_true rfl rfl
    | succ n =>
      show (m a == 0) = true ↔ _
      rw [bytesAt_succ, List.take_nil, beq_iff_eq]
      by_cases h : m a = 0
      · simp [h]
      · simp [h]
  | cons c cs ih =>
    intro a n
    rw [List.mem_cons, not_or] at hs
    cases n with
    | zero => exact iff_of_true rfl rfl
    | succ n =>
      show (m a == c && strnEq m (a + 1) n cs) = true ↔ _
      rw [Bool.and_eq_true, beq_iff_eq, ih hs.2, bytesAt_succ, List.take_succ_cons]
      by_cases h : m a = 0
      · -- the string has no NUL in this place
        simp [h, hs.1]
      · simp [h]

/-- **`remove_directory` selects** the directory whose name is the first eight bytes of the name. -/
theorem removeTarget_eq (fs : Image) (path dirname : CString) :
    removeTarget fs path dirname
      = directoryNamed fs path (dirname.bytes.take MAX_FILENAME) := by
  unfold removeTarget directoryNamed
  cases find_directory fs path with
  | none => rfl
  | some dir =>
    simp only [Option.bind_some]
    refine congrArg (List.find? · (table dir)) (funext fun e => ?_)
    have hname : strnEq fs.mem e MAX_FILENAME dirname.bytes
        = (storedName fs.mem e == dirname.bytes.take MAX_FILENAME) := by
      rw [Bool.eq_iff_iff, strnEq_iff dirname.no_nul, beq_iff_eq]
      rfl
    rw [hname]

theorem storedName_length (m : Mem) (a : Nat) : (storedName m a).length ≤ MAX_FILENAME := by
  refine Nat.le_trans (List.takeWhile_sublist _).length_le ?_
  simp [bytesAt]

/-- No directory has a longer name. -/
theorem directoryNamed_long {name : List UInt8} (h : MAX_FILENAME < name.length) :
    directoryNamed fs path name = none := by
  unfold directoryNamed
  cases find_directory fs path with
  | none => rfl
  | some dir =>
    simp only [Option.bind_some]
    rw [List.find?_eq_none]
    intro e _ hsel
    rw [Bool.and_eq_true, beq_iff_eq] at hsel
    have hlen := storedName_length fs.mem e
    rw [hsel.1] at hlen
    omega

/-- An entry with a name is live. -/
theorem live_iff_storedName : live m a = true ↔ storedName m a ≠ [] := by
  have hhead : bytesAt m a MAX_FILENAME = m a :: bytesAt m (a + 1) 7 := bytesAt_succ m a 7
  unfold live storedName
  rw [hhead, bne_iff_ne]
  by_cases h : m a = 0
  · simp [h]
  · simp [h]

theorem directoryNamed_spec {name : List UInt8} (h : directoryNamed fs path name = some a) :
    storedName fs.mem a = name := by
  obtain ⟨dir, _, hfind⟩ := Option.bind_eq_some_iff.mp h
  have hsel := List.find?_some hfind
  rw [Bool.and_eq_true, beq_iff_eq] at hsel
  exact hsel.1

/-- Erasing the selected entry changes the image: its attribute byte is not 0. -/
theorem erase_ne (h : removeTarget fs path dirname = some a) : erase fs a ≠ fs := by
  obtain ⟨-, -, -, -, hattr⟩ := removeTarget_spec h
  intro heq
  have h0 : (erase fs a).mem (a + 30) = 0 :=
    erase_inside (Nat.le_add_right a 30) (Nat.add_lt_add_left (by decide) a)
  rw [heq] at h0
  exact absurd (h0.symm.trans hattr) (by decide)

/-! ## §4. Removal. -/

/-- Two choices between the same images agree when the tests do. -/
theorem choice_eq_iff {x y : Image} (h : x ≠ y) (b c : Bool) :
    (if b = true then x else y) = (if c = true then x else y) ↔ (b = true ↔ c = true) := by
  cases b <;> cases c <;> simp [h, h.symm]

/-- The name is one that a directory can have. -/
def Nameable (dirname : CString) : Prop :=
  dirname.bytes ≠ [] ∧ dirname.bytes.length ≤ MAX_FILENAME

/-- What removal is for, in terms of the entry that `remove_directory` selects. -/
theorem removeEmpty_eq (h : removeTarget fs path dirname = some a) :
    ∃ c : Bool, removeEmpty fs path dirname = (if c = true then erase fs a else fs)
      ∧ (c = true ↔ Nameable dirname ∧ ¬ Occupied fs.mem a) := by
  rw [removeTarget_eq] at h
  unfold removeEmpty
  by_cases hlen : dirname.bytes.length ≤ MAX_FILENAME
  · rw [List.take_of_length_le hlen] at h
    rw [h]
    refine ⟨_, rfl, ?_⟩
    rw [Bool.and_eq_true, live_iff_storedName, directoryNamed_spec h, ownTableEmpty_iff]
    exact and_congr_left fun _ => (and_iff_left hlen).symm
  · refine ⟨false, ?_, iff_of_false Bool.false_ne_true fun hc => hlen hc.1.2⟩
    rw [directoryNamed_long (Nat.lt_of_not_le hlen)]
    rfl

/-- **`remove_directory` does what it is for exactly when the scan of the root directory finds an
    entry for the occupied directories, and for a name that no directory can have, only**, in every
    image.  The directory is the one that has the first eight bytes of the name as its name. -/
theorem remove_as_specified_iff (fs : Image) (path dirname : CString) :
    remove_directory fs path dirname = removeEmpty fs path dirname ↔
      ∀ a, directoryNamed fs path (dirname.bytes.take MAX_FILENAME) = some a →
        (Referenced fs.mem a ↔ ¬ Nameable dirname ∨ Occupied fs.mem a) := by
  rw [← removeTarget_eq]
  cases htarget : removeTarget fs path dirname with
  | none =>
    refine iff_of_true ?_ fun _ h => by cases h
    have hnone : directoryNamed fs path dirname.bytes = none := by
      by_cases hlen : dirname.bytes.length ≤ MAX_FILENAME
      · rw [← List.take_of_length_le hlen, ← removeTarget_eq, htarget]
      · exact directoryNamed_long (Nat.lt_of_not_le hlen)
    unfold remove_directory removeEmpty
    rw [htarget, hnone]
  | some a =>
    obtain ⟨c, heq, hc⟩ := removeEmpty_eq htarget
    have hscan := is_empty_iff (m := fs.mem) (a := a)
    unfold remove_directory
    simp only [htarget, heq, Option.some.injEq, forall_eq']
    rw [choice_eq_iff (erase_ne htarget), hscan, hc]
    constructor
    · intro h
      rw [← not_iff_not, h, not_or, not_not]
    · intro h
      rw [h, not_or, not_not]

/-- A directory with a directory in it. -/
def nested : Volume :=
  (blank.apply (.create root nameA midnight)).apply (.create pathA nameB midnight)

/-- **A directory with a live entry is removed.** -/
theorem nonempty_removed :
    fatSystem.Reachable nested ∧ (list_directory nested.fs pathA).map List.length = some 1
      ∧ remove_directory nested.fs root nameA ≠ removeEmpty nested.fs root nameA
      ∧ find_directory (remove_directory nested.fs root nameA) pathA = none := by
  have htarget : removeTarget nested.fs root nameA = some rootDir := by decide +kernel
  refine ⟨.next (.next (.start blank_init) rfl) rfl, by decide +kernel, ?_, by decide +kernel⟩
  have hscan : is_empty nested.fs.mem rootDir = true := by decide +kernel
  have hoccupied : Occupied nested.fs.mem rootDir :=
    ⟨tableOf nested.fs.mem rootDir, List.mem_cons_self, by decide +kernel⟩
  obtain ⟨c, hspec, hc⟩ := removeEmpty_eq htarget
  have hkeep : c = false := Bool.eq_false_iff.mpr fun h => (hc.mp h).2 hoccupied
  unfold remove_directory
  simp only [htarget, hscan, hspec, hkeep, Bool.false_eq_true, if_true, if_false]
  exact erase_ne htarget

end SystemOS.Fat12.Removal
