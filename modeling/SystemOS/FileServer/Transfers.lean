/-
  SystemOS.FileServer.Transfers — files that travel between the client's directory and the server's.

  `upload_file_to_server` and `download_file_from_server` copy a file piece by piece through a
  string, so that what follows a NUL in a piece stays behind; a file that cannot be locked arrives
  empty.

  Main results:
    * `uploaded`, `downloaded` — the file at the other end.
    * `transfers_iff`          — when an upload, a download and one after the other are exact.
-/
import SystemOS.FileServer.Editing

namespace SystemOS.FileServer.Transfers

open SystemOS.Lib.Lines
open SystemOS.FileServer.Handler SystemOS.FileServer.Editing

/-! ## §1. Requests that go through. -/

/-- The client has the file, the server has none of that name, and both can be opened. -/
structure Uploadable (w : World) (filename dir_name file : Bytes) : Prop where
  present : w.access (clientPath filename) = true
  source : w.fopenRead (clientPath filename) = some file
  absent : w.access (serverPath dir_name filename) = false
  target : w.fopenWrite (serverPath dir_name filename) = true

/-- The server has the file, the client has none of that name, and both can be opened. -/
structure Downloadable (w : World) (filename dir_name : Bytes) (file : Option Bytes) : Prop where
  absent : w.access (clientPath filename) = false
  present : w.access (serverPath dir_name filename) = true
  target : w.fopenWrite (clientPath filename) = true
  source : w.fopenRead (serverPath dir_name filename) = file

/-- What arrives of a file, with the answer of `flock`. -/
def arrived (locked : Bool) (file : Bytes) : Bytes := if locked then copied file else []

variable {w : World} {message filename dir_name file : Bytes}

/-! ## §2. The file at the other end. -/

/-- The server's file after an upload. -/
def uploaded (w : World) (message filename dir_name : Bytes) : Option Bytes :=
  (after w (upload_file_to_server w message filename dir_name)).fopenRead
    (serverPath dir_name filename)

/-- The client's file after a download. -/
def downloaded (w : World) (message filename dir_name : Bytes) : Option Bytes :=
  (after w (download_file_from_server w message filename dir_name)).fopenRead (clientPath filename)

theorem uploaded_eq (message : Bytes) (h : Uploadable w filename dir_name file) :
    uploaded w message filename dir_name
      = some (arrived (w.flock (serverPath dir_name filename)) file) := by
  have hwritten : (upload_file_to_server w message filename dir_name).written
      = [(serverPath dir_name filename,
          arrived (w.flock (serverPath dir_name filename)) file)] := by
    unfold upload_file_to_server
    simp only [h.present, h.source, h.absent, h.target, Bool.true_eq_false, Bool.false_eq_true,
      if_false]
    cases w.flock (serverPath dir_name filename) <;> rfl
  exact (after_written hwritten).1

theorem downloaded_eq (message : Bytes) (h : Downloadable w filename dir_name (some file)) :
    downloaded w message filename dir_name
      = some (arrived (w.flock (serverPath dir_name filename)) file) := by
  have hwritten : (download_file_from_server w message filename dir_name).written
      = [(clientPath filename, arrived (w.flock (serverPath dir_name filename)) file)] := by
    unfold download_file_from_server
    simp only [h.absent, h.present, h.target, h.source, Bool.true_eq_false, Bool.false_eq_true,
      if_false]
    cases w.flock (serverPath dir_name filename) <;> rfl
  exact (after_written hwritten).1

/-! ## §3. Exact copies. -/

/-- **A copy is exact** when the file holds no NUL. -/
theorem copied_eq_iff : copied file = file ↔ 0 ∉ file := by
  constructor
  · intro h
    rw [← h]
    exact kept_no_nul _
  · intro h
    exact kept_lines 254 h

theorem arrived_eq_iff (locked : Bool) :
    arrived locked file = file ↔ 0 ∉ file ∧ (file = [] ∨ locked = true) := by
  cases locked with
  | true =>
    show copied file = file ↔ _
    rw [copied_eq_iff]
    exact ⟨fun h => ⟨h, .inr rfl⟩, fun h => h.1⟩
  | false =>
    show [] = file ↔ _
    constructor
    · intro h
      rw [← h]
      exact ⟨List.not_mem_nil, .inl rfl⟩
    · rintro ⟨-, h | h⟩
      · exact h.symm
      · cases h

/-- A file that goes there and back. -/
theorem arrived_twice_iff (locked locked' : Bool) :
    arrived locked' (arrived locked file) = file
      ↔ 0 ∉ file ∧ (file = [] ∨ locked = true ∧ locked' = true) := by
  constructor
  · intro h
    -- what arrives is empty or a copy, and neither holds a NUL
    have hnul : 0 ∉ file := by
      rw [← h]
      cases locked' with
      | true => exact kept_no_nul _
      | false => exact List.not_mem_nil
    refine ⟨hnul, ?_⟩
    cases locked' with
    | false => exact .inl h.symm
    | true =>
      cases locked with
      | true => exact .inr ⟨rfl, rfl⟩
      | false => exact .inl h.symm
  · rintro ⟨hnul, rfl | ⟨rfl, rfl⟩⟩
    · cases locked <;> cases locked' <;> rfl
    · have hcopy : arrived true file = file := copied_eq_iff.mpr hnul
      rw [hcopy, hcopy]

/-- **When the transfers are exact**: an upload from `up`, a download from `down`, and a download
    from `back` of what the upload has left on the server. -/
theorem transfers_iff (file message message' message'' filename dir_name : Bytes)
    (up down back : World) (hup : Uploadable up filename dir_name file)
    (hdown : Downloadable down filename dir_name (some file))
    (hback : Downloadable back filename dir_name (uploaded up message filename dir_name)) :
    (uploaded up message filename dir_name = some file
        ∧ downloaded down message' filename dir_name = some file
        ∧ downloaded back message'' filename dir_name = some file)
      ↔ 0 ∉ file ∧ (file = [] ∨ up.flock (serverPath dir_name filename) = true
          ∧ down.flock (serverPath dir_name filename) = true
          ∧ back.flock (serverPath dir_name filename) = true) := by
  rw [uploaded_eq message hup] at hback ⊢
  rw [downloaded_eq message' hdown, downloaded_eq message'' hback, Option.some_inj, Option.some_inj,
    Option.some_inj, arrived_eq_iff, arrived_eq_iff, arrived_twice_iff]
  constructor
  · rintro ⟨⟨hnul, hl1⟩, ⟨-, hl2⟩, -, hl3⟩
    refine ⟨hnul, ?_⟩
    rcases hl1 with hnil | hl1
    · exact .inl hnil
    · rcases hl2 with hnil | hl2
      · exact .inl hnil
      · rcases hl3 with hnil | hl3
        · exact .inl hnil
        · exact .inr ⟨hl1, hl2, hl3.2⟩
  · rintro ⟨hnul, hnil | ⟨hl1, hl2, hl3⟩⟩
    · exact ⟨⟨hnul, .inl hnil⟩, ⟨hnul, .inl hnil⟩, hnul, .inl hnil⟩
    · exact ⟨⟨hnul, .inr hl1⟩, ⟨hnul, .inr hl2⟩, hnul, .inr ⟨hl1, hl3⟩⟩

/-! ## §4. Sample files. -/

/-- A system with one file, at `path`, where everything succeeds. -/
def holding (path file : Bytes) : World where
  opendir := fun _ => none
  access := fun p => p == path
  fopenRead := fun p => if p = path then some file else none
  fopenWrite := fun _ => true
  flock := fun _ => true
  tar := fun _ => none
  kill := fun _ => true

theorem paths_apart : clientPath [97] ≠ serverPath [100] [97] := by decide +kernel

theorem holding_uploadable (file : Bytes) :
    Uploadable (holding (clientPath [97]) file) [97] [100] file :=
  ⟨beq_self_eq_true _, if_pos rfl, beq_false_of_ne paths_apart.symm, rfl⟩

theorem holding_downloadable (file : Bytes) :
    Downloadable (holding (serverPath [100] [97]) file) [97] [100] (some file) :=
  ⟨beq_false_of_ne paths_apart, beq_self_eq_true _, rfl, if_pos rfl⟩

/-- A line, there and back. -/
theorem transfers_iff_line :
    uploaded (holding (clientPath [97]) [98, 10]) [] [97] [100] = some [98, 10]
      ∧ downloaded (holding (serverPath [100] [97]) [98, 10]) [] [97] [100] = some [98, 10]
      ∧ downloaded (holding (serverPath [100] [97]) [98, 10]) [] [97] [100] = some [98, 10] :=
  (transfers_iff [98, 10] [] [] [] [97] [100] _ _ _ (holding_uploadable _) (holding_downloadable _)
    (by rw [uploaded_eq [] (holding_uploadable _)]; exact holding_downloadable _)).mpr
    ⟨by decide, .inr ⟨rfl, rfl, rfl⟩⟩

/-- **A NUL byte is lost**: a file of one NUL arrives empty. -/
theorem nul_lost : ¬ ∀ (w : World) (message filename dir_name file : Bytes),
    Uploadable w filename dir_name file → w.flock (serverPath dir_name filename) = true →
      uploaded w message filename dir_name = some file := by
  intro hclaim
  have hsame := hclaim (holding (clientPath [97]) [0]) [] [97] [100] [0] (holding_uploadable [0]) rfl
  rw [uploaded_eq [] (holding_uploadable [0])] at hsame
  exact absurd hsame (by decide)

end SystemOS.FileServer.Transfers
