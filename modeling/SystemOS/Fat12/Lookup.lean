/-
  SystemOS.Fat12.Lookup — which directory a path leads to.

  `find_directory` calls `strtok` on a copy of the path and searches one table for each token.  What
  it finds depends on the components of the path alone, and a path with one more component leads
  from the directory of the path to the first entry of that name.

  Main results:
    * `find_directory_loop` — the loop of `find_directory` over the calls of `strtok`.
    * `find_directory_join` — a lookup is composed of the lookups of its parts.
    * `lookup_laws`         — the directory behind one more component, and which spellings of a path
      are the same.
-/
import SystemOS.Fat12.Isolation
import SystemOS.Lib.Strtok

namespace SystemOS.Fat12.Lookup

open SystemOS.Lib.ByteMemory SystemOS.Lib.Strings SystemOS.Lib.Strtok
open SystemOS.Fat12.FileSystem SystemOS.Fat12.Tables

/-! ## §1. The loop over the tokens. -/

/-- The loop of `find_directory`: what `strtok` has returned, and the string it goes on with. -/
def lookupLoop (m : Mem) : Nat → Option (List UInt8) × List UInt8 → Nat → Option Nat
  | _, (none, _), current_dir => some current_dir
  | 0, (some _, _), _ => none
  | n + 1, (some token, rest), current_dir =>
    match child m current_dir token with
    | some next => lookupLoop m n (strtok backslash rest) next
    | none => none

/-- One turn for each word of the string. -/
theorem lookupLoop_eq_walk (m : Mem) {n : Nat} : ∀ {s : List UInt8} {dir : Nat}, s.length ≤ n →
    lookupLoop m n (strtok backslash s) dir = walk m dir (words backslash s) := by
  induction n with
  | zero =>
    intro s dir hlen
    rw [List.length_eq_zero_iff.mp (Nat.le_zero.mp hlen)]
    rfl
  | succ n ih =>
    intro s dir hlen
    obtain ⟨hhead, htail⟩ := strtok_words backslash s
    have hrest : ∀ {t}, (strtok backslash s).1 = some t →
        (strtok backslash s).2.length < s.length := strtok_rest_length
    cases hcall : strtok backslash s with
    | mk token rest =>
      rw [hcall] at hhead htail hrest
      cases token with
      | none =>
        have hnil : words backslash s = [] := List.head?_eq_none_iff.mp hhead.symm
        rw [hnil]
        rfl
      | some token =>
        have hshorter : rest.length < s.length := hrest rfl
        have hwords : words backslash s = token :: words backslash rest := by
          rw [htail]
          exact List.eq_cons_of_mem_head? hhead.symm
        rw [hwords, walk_cons, lookupLoop]
        cases child m dir token with
        | none => rfl
        | some next => exact ih (by omega)

/-- **`find_directory` as a loop**: the copy of the path is long enough for all of it. -/
theorem find_directory_loop (fs : Image) (path : CString) :
    find_directory fs path = if path.bytes = [backslash] then some rootDir
      else lookupLoop fs.mem path.bytes.length (strtok backslash path.bytes) rootDir := by
  rw [lookupLoop_eq_walk fs.mem (Nat.le_refl _)]
  rfl

/-! ## §2. Components. -/

/-- The components of a path: the non-empty pieces between backslashes. -/
def components (path : CString) : List (List UInt8) :=
  (path.bytes.splitOn backslash).filter (· ≠ [])

theorem tokens_eq_components (path : CString) : tokens path = components path :=
  words_eq_splitOn backslash path.bytes

/-- The path `p \ q`. -/
def join (p q : CString) : CString where
  bytes := p.bytes ++ backslash :: q.bytes
  no_nul := by
    rw [List.mem_append, List.mem_cons, not_or, not_or]
    exact ⟨p.no_nul, by decide, q.no_nul⟩

variable {fs : Image} {p q c : CString} {dir e : Nat}

theorem tokens_join (p q : CString) : tokens (join p q) = tokens p ++ tokens q :=
  words_append backslash p.bytes q.bytes

/-- The lookup depends on the components alone. -/
theorem find_directory_congr (h : components p = components q) :
    find_directory fs p = find_directory fs q := by
  rw [find_directory_eq, find_directory_eq, tokens_eq_components, tokens_eq_components, h]

/-- **A lookup is composed of the lookups of its parts.** -/
theorem find_directory_join (fs : Image) (p q : CString) :
    find_directory fs (join p q)
      = (find_directory fs p).bind fun dir => walk fs.mem dir (tokens q) := by
  rw [find_directory_eq, find_directory_eq, tokens_join, Isolation.walk_append]

/-- One more component is one more search. -/
theorem find_directory_child (hne : c.bytes ≠ []) (hc : backslash ∉ c.bytes) :
    find_directory fs (join p c)
      = (find_directory fs p).bind fun dir => child fs.mem dir c.bytes := by
  have htokens : tokens c = [c.bytes] := words_word hne hc
  rw [find_directory_join, htokens]
  cases find_directory fs p with
  | none => rfl
  | some dir =>
    show walk fs.mem dir [c.bytes] = child fs.mem dir c.bytes
    rw [walk_cons]
    cases child fs.mem dir c.bytes <;> rfl

/-! ## §3. The directory behind one more component. -/

/-- The entry `e` has the name `c` and the attribute of a directory. -/
def HasName (m : Mem) (c : List UInt8) (e : Nat) : Prop :=
  strEq m e c = true ∧ file_attributes m e = 0x10

theorem hasName_iff {m : Mem} {t : List UInt8} : HasName m t e ↔ isNamed m t e = true := by
  unfold HasName isNamed
  rw [Bool.and_eq_true, beq_iff_eq]

theorem child_eq_none_iff {m : Mem} {t : List UInt8} :
    child m dir t = none ↔ ∀ e ∈ table dir, ¬ HasName m t e := by
  unfold child
  rw [Option.map_eq_none_iff, List.find?_eq_none]
  simp only [hasName_iff]

/-- The search stops at the first entry of the name. -/
theorem child_of_first {m : Mem} {t : List UInt8} {before behind : List Nat}
    (htable : table dir = before ++ e :: behind) (he : HasName m t e)
    (hbefore : ∀ f ∈ before, ¬ HasName m t f) : child m dir t = some (tableOf m e) := by
  have hfind : (table dir).find? (isNamed m t) = some e := by
    rw [List.find?_eq_some_iff_append]
    refine ⟨hasName_iff.mp he, before, behind, htable, fun f hf => ?_⟩
    rw [Bool.not_eq_true', Bool.eq_false_iff]
    intro hnamed
    exact hbefore f hf (hasName_iff.mpr hnamed)
  unfold child
  rw [hfind, Option.map_some]

/-- Nothing is found behind one more component when nothing is found in front of it, or no entry
    there has the name. -/
theorem find_directory_eq_none_iff (hne : c.bytes ≠ []) (hc : backslash ∉ c.bytes) :
    find_directory fs (join p c) = none ↔ find_directory fs p = none
      ∨ ∃ dir, find_directory fs p = some dir ∧ ∀ e ∈ table dir, ¬ HasName fs.mem c.bytes e := by
  rw [find_directory_child hne hc]
  cases hdir : find_directory fs p with
  | none => exact iff_of_true rfl (.inl rfl)
  | some dir =>
    rw [Option.bind_some, child_eq_none_iff]
    constructor
    · intro h
      exact .inr ⟨dir, rfl, h⟩
    · intro h
      obtain h | ⟨dir', hdir', h⟩ := h
      · cases h
      · cases hdir'
        exact h

/-! ## §4. Spellings. -/

/-- `q` is spelled with one backslash more than `p`. -/
inductive OneMore (p q : CString) : Prop
  | leading : q.bytes = backslash :: p.bytes → OneMore p q
  | trailing : q.bytes = p.bytes ++ [backslash] → OneMore p q
  | repeated (s t : List UInt8) : p.bytes = s ++ backslash :: t →
      q.bytes = s ++ backslash :: backslash :: t → OneMore p q

theorem OneMore.tokens_eq (h : OneMore p q) : tokens p = tokens q := by
  unfold tokens
  cases h with
  | leading hq => rw [hq, words_delimiter]
  | trailing hq =>
    rw [hq, words_append]
    exact (List.append_nil _).symm
  | repeated s t hp hq => rw [hp, hq, words_append, words_append, words_delimiter]

/-- **The laws of lookup**, for every image: the directory behind one more component, the
    components of a path as all that matters, and the backslashes that do not. -/
theorem lookup_laws (fs : Image) :
    (∀ p c : CString, c.bytes ≠ [] → backslash ∉ c.bytes →
        (find_directory fs (join p c) = none ↔ find_directory fs p = none
          ∨ ∃ dir, find_directory fs p = some dir
            ∧ ∀ e ∈ table dir, ¬ HasName fs.mem c.bytes e)
        ∧ ∀ dir before e behind, find_directory fs p = some dir →
            table dir = before ++ e :: behind → HasName fs.mem c.bytes e →
            (∀ f ∈ before, ¬ HasName fs.mem c.bytes f) →
            find_directory fs (join p c)
              = some (dataPos + BYTES_PER_SECTOR * (first_block fs.mem e).toNat))
      ∧ (∀ p q : CString, components p = components q →
          find_directory fs p = find_directory fs q)
      ∧ ∀ p q : CString, OneMore p q → find_directory fs p = find_directory fs q := by
  refine ⟨fun p c hne hc => ⟨find_directory_eq_none_iff hne hc, ?_⟩, fun p q h =>
    find_directory_congr h, fun p q h => ?_⟩
  · intro dir before e behind hdir htable he hbefore
    rw [find_directory_child hne hc, hdir, Option.bind_some, child_of_first htable he hbefore,
      tableOf, Nat.mul_comm]
  · rw [find_directory_eq, find_directory_eq, h.tokens_eq]

/-- The second of two directories in the root, behind a path with two backslashes. -/
theorem lookup_laws_siblings : find_directory Isolation.siblings.fs (join root nameB)
    = some (dataPos + BYTES_PER_SECTOR * 1) := by
  have hlaw := ((lookup_laws Isolation.siblings.fs).1 root nameB (by decide) (by decide)).2
  have hblock :
      (first_block Isolation.siblings.fs.mem (rootDir + sizeofDirectoryEntry)).toNat = 1 := by
    decide +kernel
  rw [hlaw rootDir [rootDir] (rootDir + sizeofDirectoryEntry)
    (entriesFrom 222 (rootDir + sizeofDirectoryEntry + sizeofDirectoryEntry)) rfl rfl
    ⟨by decide +kernel, by decide +kernel⟩ ?_, hblock]
  intro f hf hnamed
  rw [List.mem_singleton.mp hf] at hnamed
  exact absurd hnamed.1 (by decide +kernel)

end SystemOS.Fat12.Lookup
