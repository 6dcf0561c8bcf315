/-
  SystemOS.Kernel.ScreenRuns — what the screen shows after any calls of `printf`.

  The 25 rows of the video memory are the last rows of a sheet without a lower end.  The characters
  agree with the sheet's (`Shows`); the attributes are those that the rows had at first, the rows
  that came up from below having those of the last row, as long as no character has its high bit
  set: `str[i]` is signed, and the sign goes into the attribute.

  Main results:
    * `shows_last_rows`      — the screen shows the last 25 rows.
    * `keepsAttributes_iff`  — when the attributes stay as they are.
-/
import SystemOS.Kernel.Printf
import Mathlib.Data.List.Induction

namespace SystemOS.Kernel.Printf

open SystemOS.Lib.Buffers SystemOS.Lib.Lines SystemOS.Lib.Terminal

/-! ## §1. The cursor. -/

/-- The cursor is at the place `p` of the sheet. -/
structure Follows (s : Screen) (p : Place) : Prop where
  inRange : s.InRange
  row_eq : s.y.toNat = p.row - p.top 25
  column_eq : s.x.toNat = p.column

theorem Follows.refl {s : Screen} (hs : s.InRange) : Follows s s.place where
  inRange := hs
  row_eq := by
    have hy := hs.y_lt
    show s.y.toNat = s.y.toNat - (s.y.toNat + 1 - 25)
    omega
  column_eq := rfl

theorem Follows.top_add {s : Screen} {p : Place} (h : Follows s p) :
    p.top 25 + s.y.toNat = p.row := by
  have hrow := h.row_eq
  unfold Place.top at hrow ⊢
  omega

theorem Follows.breaks_iff {s : Screen} {p : Place} (h : Follows s p) (t : Option UInt8) :
    s.place.Breaks 80 t ↔ p.Breaks 80 t := by
  unfold Place.Breaks
  rw [← h.column_eq]
  exact Iff.rfl

theorem Follows.scrolls_iff {s : Screen} {p : Place} (h : Follows s p) (c : UInt8) :
    s.Scrolls c ↔ p.Breaks 80 (glyph c) ∧ 25 ≤ p.row + 1 := by
  have hrow := h.row_eq
  have hy := h.inRange.y_lt
  have hbottom : 25 ≤ s.y.toNat + 1 ↔ 25 ≤ p.row + 1 := by
    unfold Place.top at hrow
    omega
  exact and_congr (h.breaks_iff (glyph c)) hbottom

/-- The first row that is shown goes down by one when the screen scrolls. -/
theorem Follows.top_next {s : Screen} {p : Place} (h : Follows s p) (c : UInt8) :
    (p.next 80 (glyph c)).top 25 = p.top 25 + if s.Scrolls c then 1 else 0 := by
  have hiff := h.scrolls_iff c
  by_cases hbreak : p.Breaks 80 (glyph c)
  · rw [next_of_breaks hbreak]
    show p.row + 1 + 1 - 25 = p.row + 1 - 25 + _
    by_cases hbottom : 25 ≤ p.row + 1
    · rw [if_pos (hiff.mpr ⟨hbreak, hbottom⟩)]
      omega
    · rw [if_neg fun hs => hbottom (hiff.mp hs).2]
      omega
  · rw [next_of_not_breaks hbreak, if_neg fun hs => hbreak (hiff.mp hs).1]
    rfl

theorem Follows.put {s : Screen} {p : Place} (h : Follows s p) (c : UInt8) :
    Follows (put s c) (p.next 80 (glyph c)) := by
  have hplace := (put_spec h.inRange c).2.1
  have hrow : (Printf.put s c).y.toNat = (Printf.put s c).place.row := rfl
  have hcolumn : (Printf.put s c).x.toNat = (Printf.put s c).place.column := rfl
  have htop := h.top_next c
  have hadd := h.top_add
  refine ⟨(put_spec h.inRange c).2.2.1, ?_, ?_⟩
  · rw [hrow, hplace, htop]
    by_cases hs : s.Scrolls c
    · have hboth := (h.scrolls_iff c).mp hs
      rw [if_pos hs, if_pos hs, next_of_breaks hboth.1]
      show 24 = p.row + 1 - (p.row + 1 - 25 + 1)
      omega
    · rw [if_neg hs, if_neg hs]
      by_cases hbreak : p.Breaks 80 (glyph c)
      · rw [next_of_breaks hbreak, next_of_breaks ((h.breaks_iff _).mpr hbreak)]
        show s.y.toNat + 1 = p.row + 1 - (p.top 25 + 0)
        omega
      · rw [next_of_not_breaks hbreak, next_of_not_breaks (mt (h.breaks_iff _).mp hbreak)]
        show s.y.toNat = p.row - (p.top 25 + 0)
        omega
  · rw [hcolumn, hplace]
    by_cases hbreak : p.Breaks 80 (glyph c)
    · rw [next_of_breaks hbreak, next_of_breaks ((h.breaks_iff _).mpr hbreak)]
      split <;> rfl
    · rw [next_of_not_breaks hbreak, next_of_not_breaks (mt (h.breaks_iff _).mp hbreak),
        if_neg fun hs => hbreak ((h.scrolls_iff c).mp hs).1]
      exact congrArg (· + 1) h.column_eq

/-- The cell at the cursor. -/
theorem eq_cursor_iff {s : Screen} (hs : s.InRange) {r k : Nat} (hk : k < 80) :
    80 * r + k = s.cursor ↔ r = s.y.toNat ∧ k = s.x.toNat := by
  have hx := hs.x_lt
  unfold Screen.cursor
  omega

/-! ## §2. The characters. -/

/-- The screen shows the last rows of the sheet. -/
structure Shows (s : Screen) (sheet : Sheet UInt8) : Prop where
  follows : Follows s sheet.place
  cells : ∀ r k, r < 25 → k < 80 →
    character (s.VideoMemory (80 * r + k)) = sheet.window 25 r k
  blank : sheet.Blank 25 0x20
  writes_lt : ∀ i ∈ s.writes, i < 80 * 25

/-- The character is written at the same place of both. -/
theorem Shows.written {s : Screen} {sheet : Sheet UInt8} (h : Shows s sheet) (c : UInt8) {r k : Nat}
    (hr : r < 25) (hk : k < 80) :
    character ((write s c).VideoMemory (80 * r + k)) = sheet.written 25 (glyph c) r k := by
  have hadd := h.follows.top_add
  have hat : 80 * r + k = s.cursor
      ↔ sheet.place.top 25 + r = sheet.place.row ∧ k = sheet.place.column := by
    rw [eq_cursor_iff h.follows.inRange hk, h.follows.column_eq]
    exact and_congr_left fun _ => by omega
  rw [write_memory]
  unfold Sheet.written glyph
  by_cases hc : c = 0x0A
  · rw [if_neg fun hboth => hboth.2 hc, if_pos hc, h.cells r k hr hk]
    exact (ite_self _).symm
  · rw [if_neg hc]
    by_cases hi : 80 * r + k = s.cursor
    · rw [if_pos ⟨hi, hc⟩, if_pos (hat.mp hi), character_setChar]
      rfl
    · rw [if_neg fun hboth => hi hboth.1, if_neg fun hboth => hi (hat.mpr hboth)]
      exact h.cells r k hr hk

/-- A line of a screen that has scrolled is the next one, and the last one is cleared. -/
theorem character_scrolled (mem : Nat → UInt16) {r k : Nat} (hr : r < 25) (hk : k < 80) :
    character (scrolled mem (80 * r + k))
      = if r + 1 < 25 then character (mem (80 * (r + 1) + k)) else 0x20 := by
  unfold scrolled
  by_cases hlast : r + 1 < 25
  · rw [if_pos (by omega), if_pos hlast]
    exact congrArg (fun i => character (mem i)) (by omega)
  · rw [if_neg (by omega), if_pos (by omega), if_neg hlast, character_setChar]

/-- **One character** keeps the screen and the sheet together. -/
theorem Shows.put {s : Screen} {sheet : Sheet UInt8} (h : Shows s sheet) (c : UInt8) :
    Shows (put s c) (sheet.type 80 (glyph c)) := by
  obtain ⟨hmemory, -, -, hwrites⟩ := put_spec h.follows.inRange c
  refine ⟨h.follows.put c, fun r k hr hk => ?_, h.blank.type 80 (glyph c), hwrites h.writes_lt⟩
  rw [hmemory, window_type h.blank (glyph c) hr]
  by_cases hs : s.Scrolls c
  · rw [if_pos hs, if_pos ((h.follows.scrolls_iff c).mp hs), character_scrolled _ hr hk]
    exact ite_congr rfl (fun hlast => h.written c hlast hk) fun _ => rfl
  · rw [if_neg hs, if_neg (mt (h.follows.scrolls_iff c).mpr hs)]
    exact h.written c hr hk

/-- A text on a sheet. -/
def typeAll (sheet : Sheet UInt8) (text : List UInt8) : Sheet UInt8 :=
  text.foldl (fun sheet c => sheet.type 80 (glyph c)) sheet

theorem Shows.run {s : Screen} {sheet : Sheet UInt8} (h : Shows s sheet) (text : List UInt8) :
    Shows (text.foldl Printf.put s) (typeAll sheet text) := by
  induction text generalizing s sheet with
  | nil => exact h
  | cons c text ih => exact ih (h.put c)

/-- The screen after some calls. -/
def printAll (mem : Nat → UInt16) (calls : List (List UInt8)) : Screen :=
  calls.foldl printf (boot mem)

theorem foldl_printf (s : Screen) (calls : List (List UInt8)) :
    calls.foldl printf s = (calls.flatMap cstr).foldl Printf.put s := by
  induction calls generalizing s with
  | nil => rfl
  | cons str calls ih =>
    rw [List.foldl_cons, ih, List.flatMap_cons, List.foldl_append, printf_eq]

/-- The initial 25 rows, with spaces below them. -/
def firstSheet (mem : Nat → UInt16) : Sheet UInt8 where
  place := ⟨0, 0⟩
  cell r k := if r < 25 then character (mem (80 * r + k)) else 0x20

theorem shows_boot (mem : Nat → UInt16) : Shows (boot mem) (firstSheet mem) where
  follows := .refl (inRange_rowStart mem (by decide) [])
  cells r k hr _ := by
    show _ = if 0 + r < 25 then character (mem (80 * (0 + r) + k)) else 0x20
    rw [Nat.zero_add, if_pos hr]
    rfl
  blank _ _ hr _ := if_neg (Nat.not_lt.mpr hr)
  writes_lt := List.forall_mem_nil _

/-- **The screen shows the last 25 rows** of the sheet after any calls and the first characters
    `typed` of a further one; the cursor is on the screen, and so is every cell that was written. -/
theorem shows_last_rows (mem : Nat → UInt16) (calls : List (List UInt8)) (typed : List UInt8) :
    let s : Screen := printf (printAll mem calls) typed
    let sheet := typeAll (firstSheet mem) (calls.flatMap cstr ++ cstr typed)
    (∀ i ∈ s.writes, i < 80 * 25) ∧ (s.x < 80 ∧ s.y < 25)
      ∧ ∀ r k, r < 25 → k < 80 →
        character (s.VideoMemory (80 * r + k)) = sheet.window 25 r k := by
  intro s sheet
  have hshows : Shows s sheet := by
    have h := (shows_boot mem).run (calls.flatMap cstr ++ cstr typed)
    rw [List.foldl_append, ← foldl_printf] at h
    have hs : s = (cstr typed).foldl Printf.put (printAll mem calls) := printf_eq _ typed
    rw [hs]
    exact h
  have hrange := hshows.follows.inRange
  exact ⟨hshows.writes_lt,
    ⟨UInt8.lt_iff_toNat_lt.mpr hrange.x_lt, UInt8.lt_iff_toNat_lt.mpr hrange.y_lt⟩,
    hshows.cells⟩

/-! ## §3. The attributes. -/

/-- The character `c` leaves the attributes of the screen as they are, those of a row that moves up
    being taken along; the last row is cleared and keeps its own. -/
def Keeps (s : Screen) (c : UInt8) : Prop :=
  ∀ r k, r < 25 → k < 80 → attr ((Printf.put s c).VideoMemory (80 * r + k))
    = if s.Scrolls c ∧ r + 1 < 25 then attr (s.VideoMemory (80 * (r + 1) + k))
      else attr (s.VideoMemory (80 * r + k))

/-- Every character of the string does. -/
def KeepsAttributes (s : Screen) (str : List UInt8) : Prop :=
  ∀ typed c rest, cstr str = typed ++ c :: rest → Keeps (printf s typed) c

theorem attr_scrolled (mem : Nat → UInt16) {r k : Nat} (hr : r < 25) (hk : k < 80) :
    attr (scrolled mem (80 * r + k))
      = if r + 1 < 25 then attr (mem (80 * (r + 1) + k)) else attr (mem (80 * r + k)) := by
  unfold scrolled
  by_cases hlast : r + 1 < 25
  · rw [if_pos (by omega), if_pos hlast]
    exact congrArg (fun i => attr (mem i)) (by omega)
  · rw [if_neg (by omega), if_pos (by omega), if_neg hlast, attr_setChar]
    rfl

theorem attr_put {s : Screen} (hs : s.InRange) (c : UInt8) {r k : Nat} (hr : r < 25)
    (hk : k < 80) : attr ((Printf.put s c).VideoMemory (80 * r + k))
      = if s.Scrolls c ∧ r + 1 < 25 then attr ((write s c).VideoMemory (80 * (r + 1) + k))
        else attr ((write s c).VideoMemory (80 * r + k)) := by
  rw [(put_spec hs c).1]
  by_cases hscrolls : s.Scrolls c
  · rw [if_pos hscrolls, attr_scrolled _ hr hk]
    exact ite_congr (propext (and_iff_right hscrolls).symm) (fun _ => rfl) fun _ => rfl
  · rw [if_neg hscrolls, if_neg fun h => hscrolls h.1]

theorem attr_write (s : Screen) (c : UInt8) (i : Nat) : attr ((write s c).VideoMemory i)
    = if i = s.cursor ∧ 128 ≤ c then 0xFF else attr (s.VideoMemory i) := by
  rw [write_memory]
  by_cases hc : c = 0x0A
  · rw [if_neg fun h => h.2 hc, if_neg fun h => absurd (hc ▸ h.2) (by decide)]
  · by_cases hi : i = s.cursor
    · rw [if_pos ⟨hi, hc⟩, attr_setChar]
      by_cases hlow : c < 128
      · rw [if_pos hlow, if_neg fun h => UInt8.not_le.mpr hlow h.2]
      · rw [if_neg hlow, if_pos ⟨hi, UInt8.not_lt.mp hlow⟩]
    · rw [if_neg fun h => hi h.1, if_neg fun h => hi h.1]

/-- A character with its high bit set keeps the attributes only where the attribute has all bits
    set. -/
theorem keeps_iff {s : Screen} (hs : s.InRange) (c : UInt8) :
    Keeps s c ↔ (128 ≤ c → attr (s.VideoMemory s.cursor) = 0xFF) := by
  have hx := hs.x_lt
  have hy := hs.y_lt
  constructor
  · intro hkeeps hc
    have hwritten : attr ((write s c).VideoMemory s.cursor) = 0xFF := by
      rw [attr_write, if_pos ⟨rfl, hc⟩]
    by_cases hscrolls : s.Scrolls c
    · -- the cell has moved up from the last row
      have hlast : s.y.toNat = 23 + 1 := by
        have hbottom : 25 ≤ s.y.toNat + 1 := hscrolls.2
        omega
      have hcell := hkeeps 23 s.x.toNat (by decide) hx
      rw [attr_put hs c (by decide) hx, if_pos ⟨hscrolls, by decide⟩,
        if_pos ⟨hscrolls, by decide⟩, ← hlast] at hcell
      exact hcell.symm.trans hwritten
    · have hcell := hkeeps s.y.toNat s.x.toNat hy hx
      rw [attr_put hs c hy hx, if_neg fun h => hscrolls h.1, if_neg fun h => hscrolls h.1] at hcell
      exact hcell.symm.trans hwritten
  · intro hff r k hr hk
    have hsame : ∀ i, attr ((write s c).VideoMemory i) = attr (s.VideoMemory i) := by
      intro i
      rw [attr_write]
      split
      · rename_i h
        rw [h.1, hff h.2]
      · rfl
    rw [attr_put hs c hr hk, hsame, hsame]

/-- The place of a sheet after some characters. -/
def placeAfter (p : Place) (typed : List UInt8) : Place :=
  typed.foldl (fun p c => p.next 80 (glyph c)) p

/-- The attributes are those that the rows had at first, and the last row's from row 24 on. -/
structure Kept (s₀ s : Screen) (p : Place) : Prop where
  follows : Follows s p
  attrs : ∀ r k, r < 25 → k < 80 → attr (s.VideoMemory (80 * r + k))
    = attr (s₀.VideoMemory (80 * min (p.top 25 + r) 24 + k))

theorem Kept.refl {s : Screen} (hs : s.InRange) : Kept s s s.place where
  follows := .refl hs
  attrs r k hr _ := by
    have hy := hs.y_lt
    have hrow : min (s.place.top 25 + r) 24 = r := by
      show min (s.y.toNat + 1 - 25 + r) 24 = r
      omega
    rw [hrow]

theorem Kept.put {s₀ s : Screen} {p : Place} (h : Kept s₀ s p) {c : UInt8} (hkeeps : Keeps s c) :
    Kept s₀ (put s c) (p.next 80 (glyph c)) := by
  refine ⟨h.follows.put c, fun r k hr hk => ?_⟩
  rw [hkeeps r k hr hk, h.follows.top_next c]
  by_cases hs : s.Scrolls c
  · rw [if_pos hs]
    split
    · rename_i hlast
      rw [h.attrs (r + 1) k hlast.2 hk]
      exact congrArg (fun r => attr (s₀.VideoMemory (80 * r + k))) (by omega)
    · rename_i hlast
      have hr24 : ¬ r + 1 < 25 := fun hr' => hlast ⟨hs, hr'⟩
      rw [h.attrs r k hr hk]
      exact congrArg (fun r => attr (s₀.VideoMemory (80 * r + k))) (by omega)
  · rw [if_neg hs, if_neg fun hboth => hs hboth.1]
    exact h.attrs r k hr hk

/-- The attribute of the cell at the cursor. -/
theorem Kept.at_cursor {s₀ s : Screen} {p : Place} (h : Kept s₀ s p) :
    attr (s.VideoMemory s.cursor) = attr (s₀.VideoMemory (80 * min p.row 24 + p.column)) := by
  have hcell := h.attrs s.y.toNat s.x.toNat h.follows.inRange.y_lt h.follows.inRange.x_lt
  rw [h.follows.top_add, h.follows.column_eq] at hcell
  rw [← hcell, ← h.follows.column_eq]
  rfl

/-- Each byte with its high bit set comes to a cell of the sheet whose attribute had all bits set at
    first. -/
def HighBytesFit (s : Screen) (str : List UInt8) : Prop :=
  ∀ typed c rest, cstr str = typed ++ c :: rest → 128 ≤ c →
    let p := placeAfter s.place typed
    attr (s.VideoMemory (80 * min p.row 24 + p.column)) = 0xFF

/-- The attributes are kept as far as each character keeps them. -/
theorem kept_run {s : Screen} (hs : s.InRange) (typed : List UInt8)
    (hkeeps : ∀ before c after, typed = before ++ c :: after →
      Kept s (before.foldl Printf.put s) (placeAfter s.place before) →
        Keeps (before.foldl Printf.put s) c) :
    Kept s (typed.foldl Printf.put s) (placeAfter s.place typed) := by
  induction typed using List.reverseRecOn with
  | nil => exact .refl hs
  | append_singleton typed c ih =>
    have hkept := ih fun before c' after hsplit =>
      hkeeps before c' (after ++ [c]) (by rw [hsplit, List.append_assoc, List.cons_append])
    unfold placeAfter
    rw [List.foldl_concat, List.foldl_concat]
    exact hkept.put (hkeeps typed c [] rfl hkept)

/-- A call prints the characters of a string that has no NUL. -/
theorem printf_front (s : Screen) {str typed rest : List UInt8}
    (hsplit : cstr str = typed ++ rest) : printf s typed = typed.foldl Printf.put s := by
  have hnul : 0 ∉ typed := fun hmem => by
    have hzero : 0 ∈ cstr str := hsplit ▸ List.mem_append_left rest hmem
    simpa using List.mem_takeWhile_imp hzero
  rw [printf_eq, cstr_of_no_nul hnul]

/-- No calls take the cursor off the screen. -/
theorem printAll_inRange (mem : Nat → UInt16) (calls : List (List UInt8)) :
    (printAll mem calls).InRange := by
  unfold printAll
  rw [foldl_printf]
  exact ((shows_boot mem).run (calls.flatMap cstr)).follows.inRange

/-- **When the attributes stay as they are**: exactly when each byte from 128 on comes to a cell whose
    attribute has all bits set already. -/
theorem keepsAttributes_iff {s : Screen} (hs : s.InRange) (str : List UInt8) :
    KeepsAttributes s str ↔ HighBytesFit s str := by
  constructor
  · intro hkeeps typed c rest hsplit hc p
    have hkept : Kept s (typed.foldl Printf.put s) p := by
      refine kept_run hs typed fun before c' after htyped _ => ?_
      have hsplit' : cstr str = before ++ c' :: (after ++ c :: rest) := by
        rw [hsplit, htyped, List.append_assoc, List.cons_append]
      exact printf_front s hsplit' ▸ hkeeps before c' _ hsplit'
    have hstep := hkeeps typed c rest hsplit
    rw [printf_front s hsplit, keeps_iff hkept.follows.inRange, hkept.at_cursor] at hstep
    exact hstep hc
  · intro hfit typed c rest hsplit
    have hstep : ∀ before c after, cstr str = before ++ c :: after →
        Kept s (before.foldl Printf.put s) (placeAfter s.place before) →
          Keeps (before.foldl Printf.put s) c := by
      intro before c after hsplit hkept
      rw [keeps_iff hkept.follows.inRange, hkept.at_cursor]
      exact hfit before c after hsplit
    rw [printf_front s hsplit]
    refine hstep typed c rest hsplit (kept_run hs typed fun before c' after htyped hkept => ?_)
    refine hstep before c' (after ++ c :: rest) ?_ hkept
    rw [hsplit, htyped, List.append_assoc, List.cons_append]

/-- Some text below another one. -/
theorem keepsAttributes_iff_ok : KeepsAttributes (printAll (fun _ => 0x0700) [[72, 105, 10]]) [79, 75]
    ↔ HighBytesFit (printAll (fun _ => 0x0700) [[72, 105, 10]]) [79, 75] :=
  keepsAttributes_iff (printAll_inRange (fun _ => 0x0700) [[72, 105, 10]]) [79, 75]

/-- The byte 128 on a screen of grey text. -/
theorem high_byte : ¬ ∀ (s : Screen) (str : List UInt8), s.InRange → KeepsAttributes s str := by
  intro hclaim
  have hs := printAll_inRange (fun _ => 0x0700) []
  have hkeeps := hclaim (printAll (fun _ => 0x0700) []) [128] hs [] 128 [] rfl
  exact absurd ((keeps_iff hs 128).mp hkeeps (by decide)) (by decide)

end SystemOS.Kernel.Printf
