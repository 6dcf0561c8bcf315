/-
  SystemOS.Kernel.Printf — the text screen that `printf` writes.

  A cell of the video memory holds a character in its low byte and an attribute in its high byte.
  `printf` writes at the cursor, breaks the row at a newline and after 80 characters, and moves all
  rows up when the last of the 25 is broken.

  Main results:
    * `put_spec` — what one character does to the memory and to the cursor.
-/
import SystemOS.Lib.Buffers
import SystemOS.Lib.Terminal
import Mathlib.Logic.Function.Basic

namespace SystemOS.Kernel.Printf

open SystemOS.Lib.Lines SystemOS.Lib.Terminal

/-! ## §1. The code. -/

/-- The static variables of `printf`; `writes` lists the cells that were written, the last first. -/
structure Screen where
  VideoMemory : Nat → UInt16
  x : UInt8
  y : UInt8
  writes : List Nat

/-- `VideoMemory[i] = v`. -/
def Screen.store (s : Screen) (i : Nat) (v : UInt16) : Screen :=
  { s with VideoMemory := Function.update s.VideoMemory i v, writes := i :: s.writes }

/-- A `char` as the operand of a 16-bit operation: it is signed. -/
def promote (c : UInt8) : UInt16 := c.toInt8.toInt16.toUInt16

/-- A cell with another character. -/
def setChar (v : UInt16) (c : UInt8) : UInt16 := (v &&& 0xFF00) ||| promote c

/-- The loop over `k` in "Slide all input one line up", for `n` columns. -/
def copyLine (j n : Nat) (s : Screen) : Screen :=
  (List.range n).foldl
    (fun s k => s.store (80 * j + k) (s.VideoMemory (80 * (j + 1) + k))) s

/-- The loop over `j`, for `n` lines. -/
def slide (n : Nat) (s : Screen) : Screen :=
  (List.range n).foldl (fun s j => copyLine j 80 s) s

/-- "Clear the last line", for `n` columns. -/
def clearLast (n : Nat) (s : Screen) : Screen :=
  (List.range n).foldl
    (fun s k => s.store (80 * 24 + k) (setChar (s.VideoMemory (80 * 24 + k)) 0x20)) s

/-- The `switch` of the loop in `printf`. -/
def write (s : Screen) (c : UInt8) : Screen :=
  if c = 0x0A then { s with x := 0, y := s.y + 1 }
  else
    let i := 80 * s.y.toNat + s.x.toNat
    { s.store i (setChar (s.VideoMemory i) c) with x := s.x + 1 }

def wrap (s : Screen) : Screen := if 80 ≤ s.x then { s with x := 0, y := s.y + 1 } else s

def scroll (s : Screen) : Screen :=
  if 25 ≤ s.y then { clearLast 80 (slide 24 s) with x := 0, y := 24 } else s

/-- One turn of the loop. -/
def put (s : Screen) (c : UInt8) : Screen := scroll (wrap (write s c))

/-- `printf` of the bytes of a string: it stops at a NUL. -/
def printf (s : Screen) : List UInt8 → Screen
  | [] => s
  | c :: str => if c = 0 then s else printf (put s c) str

/-- The screen before the first call. -/
def boot (VideoMemory : Nat → UInt16) : Screen := ⟨VideoMemory, 0, 0, []⟩

/-! ## §2. Cells. -/

/-- The low byte. -/
def character (v : UInt16) : UInt8 := v.toUInt8

/-- The high byte. -/
def attr (v : UInt16) : UInt8 := (v >>> 8).toUInt8

/-- The sign of a character fills the high byte. -/
theorem promote_bit (c : UInt8) {i : Nat} (hi : i < 16) : (promote c).toBitVec.getLsbD i
    = if i < 8 then c.toBitVec.getLsbD i else decide (128 ≤ c) := by
  have hmsb : c.toBitVec.msb = decide (128 ≤ c) := BitVec.msb_eq_decide c.toBitVec
  show (c.toBitVec.signExtend 16).getLsbD i = _
  rw [BitVec.getLsbD_signExtend, decide_eq_true hi, Bool.true_and, hmsb]

theorem character_setChar (v : UInt16) (c : UInt8) : character (setChar v c) = c := by
  have hmask : ∀ i, i < 8 → (0xFF00#16).getLsbD i = false := by decide
  apply UInt8.toBitVec_inj.mp
  show (v.toBitVec &&& 0xFF00#16 ||| (promote c).toBitVec).setWidth 8 = c.toBitVec
  apply BitVec.eq_of_getLsbD_eq
  intro i hi
  rw [BitVec.getLsbD_setWidth, decide_eq_true hi, Bool.true_and, BitVec.getLsbD_or,
    BitVec.getLsbD_and, hmask i hi, Bool.and_false, Bool.false_or, promote_bit c (by omega),
    if_pos hi]

theorem attr_setChar (v : UInt16) (c : UInt8) :
    attr (setChar v c) = if c < 128 then attr v else 0xFF := by
  have hmask : ∀ i, i < 8 → (0xFF00#16).getLsbD (8 + i) = true := by decide
  have hones : ∀ i, i < 8 → (0xFF#8).getLsbD i = true := by decide
  have hbits : (attr (setChar v c)).toBitVec
      = ((v.toBitVec &&& 0xFF00#16 ||| (promote c).toBitVec) >>> 8).setWidth 8 := rfl
  apply UInt8.toBitVec_inj.mp
  rw [hbits]
  apply BitVec.eq_of_getLsbD_eq
  intro i hi
  rw [BitVec.getLsbD_setWidth, decide_eq_true hi, Bool.true_and, BitVec.getLsbD_ushiftRight,
    BitVec.getLsbD_or, BitVec.getLsbD_and, hmask i hi, Bool.and_true, promote_bit c (by omega),
    if_neg (by omega)]
  by_cases hlt : c < 128
  · rw [if_pos hlt, decide_eq_false (UInt8.not_le.mpr hlt), Bool.or_false]
    show _ = ((v.toBitVec >>> 8).setWidth 8).getLsbD i
    rw [BitVec.getLsbD_setWidth, decide_eq_true hi, Bool.true_and, BitVec.getLsbD_ushiftRight]
  · rw [if_neg hlt, decide_eq_true (UInt8.not_lt.mp hlt), Bool.or_true]
    exact (hones i hi).symm

/-! ## §3. The loops. -/

theorem store_memory (s : Screen) (i : Nat) (v : UInt16) (k : Nat) :
    (s.store i v).VideoMemory k = if k = i then v else s.VideoMemory k :=
  Function.update_apply s.VideoMemory i v k

theorem copyLine_succ (j n : Nat) (s : Screen) : copyLine j (n + 1) s
    = (copyLine j n s).store (80 * j + n)
      ((copyLine j n s).VideoMemory (80 * (j + 1) + n)) := by
  unfold copyLine
  rw [List.range_succ, List.foldl_concat]

theorem slide_succ (n : Nat) (s : Screen) : slide (n + 1) s = copyLine n 80 (slide n s) := by
  unfold slide
  rw [List.range_succ, List.foldl_concat]

theorem clearLast_succ (n : Nat) (s : Screen) : clearLast (n + 1) s
    = (clearLast n s).store (80 * 24 + n)
      (setChar ((clearLast n s).VideoMemory (80 * 24 + n)) 0x20) := by
  unfold clearLast
  rw [List.range_succ, List.foldl_concat]

/-- A line is a copy of the next one as far as the loop has come. -/
theorem copyLine_memory (j : Nat) {n : Nat} (hn : n ≤ 80) (s : Screen) (i : Nat) :
    (copyLine j n s).VideoMemory i =
      if 80 * j ≤ i ∧ i < 80 * j + n then s.VideoMemory (i + 80) else s.VideoMemory i := by
  induction n generalizing i with
  | zero => rw [if_neg (by omega)]; rfl
  | succ n ih =>
    have hnext := ih (by omega) (80 * (j + 1) + n)
    rw [if_neg (by omega)] at hnext
    rw [copyLine_succ, store_memory, hnext, ih (by omega) i]
    by_cases hi : i = 80 * j + n
    · rw [if_pos hi, if_pos (by omega), hi]
      exact congrArg s.VideoMemory (by omega)
    · rw [if_neg hi]
      exact ite_congr (propext (by omega)) (fun _ => rfl) fun _ => rfl

theorem slide_memory (n : Nat) (s : Screen) (i : Nat) : (slide n s).VideoMemory i =
    if i < 80 * n then s.VideoMemory (i + 80) else s.VideoMemory i := by
  induction n generalizing i with
  | zero => rw [if_neg (by omega)]; rfl
  | succ n ih =>
    rw [slide_succ, copyLine_memory n (Nat.le_refl 80), ih, ih]
    by_cases hrow : 80 * n ≤ i ∧ i < 80 * n + 80
    · rw [if_pos hrow, if_neg (by omega), if_pos (by omega)]
    · rw [if_neg hrow]
      exact ite_congr (propext (by omega)) (fun _ => rfl) fun _ => rfl

theorem clearLast_memory (n : Nat) (s : Screen) (i : Nat) : (clearLast n s).VideoMemory i =
    if 80 * 24 ≤ i ∧ i < 80 * 24 + n then setChar (s.VideoMemory i) 0x20
    else s.VideoMemory i := by
  induction n generalizing i with
  | zero => rw [if_neg (by omega)]; rfl
  | succ n ih =>
    have hlast := ih (80 * 24 + n)
    rw [if_neg (by omega)] at hlast
    rw [clearLast_succ, store_memory, hlast, ih]
    by_cases hi : i = 80 * 24 + n
    · rw [if_pos hi, if_pos (by omega), hi]
    · rw [if_neg hi]
      exact ite_congr (propext (by omega)) (fun _ => rfl) fun _ => rfl

/-- The memory of a screen that has scrolled. -/
def scrolled (mem : Nat → UInt16) (i : Nat) : UInt16 :=
  if i < 80 * 24 then mem (i + 80)
  else if i < 80 * 25 then setChar (mem i) 0x20
  else mem i

theorem clear_slide_memory (s : Screen) :
    (clearLast 80 (slide 24 s)).VideoMemory = scrolled s.VideoMemory := by
  funext i
  rw [clearLast_memory, slide_memory]
  unfold scrolled
  by_cases hrow : i < 80 * 24
  · rw [if_neg (by omega), if_pos hrow, if_pos hrow]
  · rw [if_neg hrow, if_neg hrow]
    exact ite_congr (propext (by omega)) (fun _ => rfl) fun _ => rfl

/-- The cells that scrolling writes. -/
def scrollWrites (s : Screen) : List Nat := (clearLast 80 (slide 24 s)).writes

theorem scroll_of_le {s : Screen} (hy : 25 ≤ s.y) :
    scroll s = ⟨scrolled s.VideoMemory, 0, 24, scrollWrites s⟩ := by
  unfold scroll
  rw [if_pos hy]
  exact congrArg (Screen.mk · 0 24 (scrollWrites s)) (clear_slide_memory s)

/-- `s'` comes from `s` by writes to cells of the screen. -/
structure Stores (s s' : Screen) : Prop where
  x_eq : s'.x = s.x
  y_eq : s'.y = s.y
  writes_lt : (∀ i ∈ s.writes, i < 80 * 25) → ∀ i ∈ s'.writes, i < 80 * 25

theorem Stores.refl (s : Screen) : Stores s s := ⟨rfl, rfl, id⟩

theorem Stores.trans {s s' s'' : Screen} (h : Stores s s') (h' : Stores s' s'') : Stores s s'' :=
  ⟨h'.x_eq.trans h.x_eq, h'.y_eq.trans h.y_eq, fun hs => h'.writes_lt (h.writes_lt hs)⟩

theorem stores_store (s : Screen) {i : Nat} (hi : i < 80 * 25) (v : UInt16) :
    Stores s (s.store i v) :=
  ⟨rfl, rfl, fun hs => List.forall_mem_cons.mpr ⟨hi, hs⟩⟩

theorem stores_copyLine {j n : Nat} (hj : j < 24) (hn : n ≤ 80) (s : Screen) :
    Stores s (copyLine j n s) := by
  induction n with
  | zero => exact .refl s
  | succ n ih =>
    rw [copyLine_succ]
    exact (ih (by omega)).trans (stores_store _ (by omega) _)

theorem stores_slide {n : Nat} (hn : n ≤ 24) (s : Screen) : Stores s (slide n s) := by
  induction n with
  | zero => exact .refl s
  | succ n ih =>
    rw [slide_succ]
    exact (ih (by omega)).trans (stores_copyLine hn (Nat.le_refl 80) _)

theorem stores_clearLast {n : Nat} (hn : n ≤ 80) (s : Screen) : Stores s (clearLast n s) := by
  induction n with
  | zero => exact .refl s
  | succ n ih =>
    rw [clearLast_succ]
    exact (ih (by omega)).trans (stores_store _ (by omega) _)

theorem scrollWrites_lt (s : Screen) (hw : ∀ i ∈ s.writes, i < 80 * 25) :
    ∀ i ∈ scrollWrites s, i < 80 * 25 :=
  ((stores_slide (Nat.le_refl 24) s).trans (stores_clearLast (Nat.le_refl 80) _)).writes_lt hw

/-! ## §4. One character. -/

/-- What a character types: a newline is a row break. -/
def glyph (c : UInt8) : Option UInt8 := if c = 0x0A then none else some c

def Screen.place (s : Screen) : Place := ⟨s.y.toNat, s.x.toNat⟩

/-- The cursor is on the screen. -/
structure Screen.InRange (s : Screen) : Prop where
  x_lt : s.x.toNat < 80
  y_lt : s.y.toNat < 25

/-- The cursor at the start of a row. -/
theorem inRange_rowStart (mem : Nat → UInt16) {y : UInt8} (hy : y.toNat < 25) (writes : List Nat) :
    (Screen.mk mem 0 y writes).InRange := ⟨(by decide : (0 : UInt8).toNat < 80), hy⟩

/-- The cell at the cursor. -/
def Screen.cursor (s : Screen) : Nat := 80 * s.y.toNat + s.x.toNat

theorem write_memory (s : Screen) (c : UInt8) (i : Nat) : (write s c).VideoMemory i =
    if i = s.cursor ∧ c ≠ 0x0A then setChar (s.VideoMemory i) c else s.VideoMemory i := by
  unfold write
  by_cases hc : c = 0x0A
  · rw [if_pos hc, if_neg fun h => h.2 hc]
  · rw [if_neg hc]
    refine (store_memory s s.cursor _ i).trans ?_
    by_cases hi : i = s.cursor
    · rw [if_pos hi, if_pos ⟨hi, hc⟩, hi]
      rfl
    · rw [if_neg hi, if_neg fun h => hi h.1]

theorem write_writes {s : Screen} (hs : s.InRange) (c : UInt8)
    (hw : ∀ i ∈ s.writes, i < 80 * 25) : ∀ i ∈ (write s c).writes, i < 80 * 25 := by
  unfold write
  split
  · exact hw
  · have hx := hs.x_lt
    have hy := hs.y_lt
    exact List.forall_mem_cons.mpr ⟨by omega, hw⟩

theorem breaks_iff (s : Screen) (c : UInt8) :
    s.place.Breaks 80 (glyph c) ↔ c = 0x0A ∨ 80 ≤ s.x.toNat + 1 := by
  unfold Place.Breaks glyph
  by_cases hc : c = 0x0A
  · exact iff_of_true (Or.inl (if_pos hc)) (Or.inl hc)
  · rw [if_neg hc]
    exact or_congr_left (iff_of_false (by intro h; cases h) hc)

theorem x_toNat_succ {s : Screen} (hs : s.InRange) : (s.x + 1).toNat = s.x.toNat + 1 := by
  have hx := hs.x_lt
  rw [UInt8.toNat_add]
  show (s.x.toNat + 1) % 2 ^ 8 = s.x.toNat + 1
  omega

theorem y_toNat_succ {s : Screen} (hs : s.InRange) : (s.y + 1).toNat = s.y.toNat + 1 := by
  have hy := hs.y_lt
  rw [UInt8.toNat_add]
  show (s.y.toNat + 1) % 2 ^ 8 = s.y.toNat + 1
  omega

/-- The row is broken at a newline and at its end: then the cursor goes to the next row. -/
theorem wrap_write_of_breaks {s : Screen} (hs : s.InRange) {c : UInt8}
    (hbreak : s.place.Breaks 80 (glyph c)) :
    wrap (write s c) = { write s c with x := 0, y := s.y + 1 } := by
  unfold write
  by_cases hc : c = 0x0A
  · rw [if_pos hc]
    exact if_neg (by decide : ¬ (80 : UInt8) ≤ 0)
  · have hend := ((breaks_iff s c).mp hbreak).resolve_left hc
    rw [if_neg hc]
    refine if_pos (UInt8.le_iff_toNat_le.mpr ?_)
    rw [x_toNat_succ hs]
    exact hend

theorem wrap_write_of_not_breaks {s : Screen} (hs : s.InRange) {c : UInt8}
    (hbreak : ¬ s.place.Breaks 80 (glyph c)) :
    wrap (write s c) = { write s c with x := s.x + 1, y := s.y } := by
  rw [breaks_iff, not_or] at hbreak
  unfold write
  rw [if_neg hbreak.1]
  refine if_neg fun hle => hbreak.2 ?_
  rw [← x_toNat_succ hs]
  exact UInt8.le_iff_toNat_le.mp hle

/-- A character in the middle of a row. -/
theorem put_of_not_breaks {s : Screen} (hs : s.InRange) {c : UInt8}
    (hbreak : ¬ s.place.Breaks 80 (glyph c)) :
    put s c = { write s c with x := s.x + 1, y := s.y } := by
  unfold put
  rw [wrap_write_of_not_breaks hs hbreak]
  refine if_neg fun hle => ?_
  have hbottom : 25 ≤ s.y.toNat := UInt8.le_iff_toNat_le.mp hle
  exact Nat.not_le.mpr hs.y_lt hbottom

/-- A row break above the last row. -/
theorem put_of_breaks {s : Screen} (hs : s.InRange) {c : UInt8}
    (hbreak : s.place.Breaks 80 (glyph c)) (hy : s.y.toNat + 1 < 25) :
    put s c = { write s c with x := 0, y := s.y + 1 } := by
  unfold put
  rw [wrap_write_of_breaks hs hbreak]
  refine if_neg fun hle => Nat.not_le.mpr hy ?_
  rw [← y_toNat_succ hs]
  exact UInt8.le_iff_toNat_le.mp hle

/-- A row break in the last row. -/
theorem put_of_scrolls {s : Screen} (hs : s.InRange) {c : UInt8}
    (hbreak : s.place.Breaks 80 (glyph c)) (hy : 25 ≤ s.y.toNat + 1) :
    put s c = ⟨scrolled (write s c).VideoMemory, 0, 24,
      scrollWrites { write s c with x := 0, y := s.y + 1 }⟩ := by
  unfold put
  rw [wrap_write_of_breaks hs hbreak]
  refine scroll_of_le (UInt8.le_iff_toNat_le.mpr ?_)
  show 25 ≤ (s.y + 1).toNat
  rw [y_toNat_succ hs]
  exact hy

/-- The character moves the rows up. -/
def Screen.Scrolls (s : Screen) (c : UInt8) : Prop :=
  s.place.Breaks 80 (glyph c) ∧ 25 ≤ s.place.row + 1

instance (s : Screen) (c : UInt8) : Decidable (s.Scrolls c) :=
  inferInstanceAs (Decidable (_ ∧ _))

/-- **One character**: the cell at the cursor gets it, the rows move up if it breaks the last one,
    the cursor goes to the next place of the rows that are shown, and no cell outside the screen is
    written. -/
theorem put_spec {s : Screen} (hs : s.InRange) (c : UInt8) :
    (put s c).VideoMemory
        = (if s.Scrolls c then scrolled (write s c).VideoMemory else (write s c).VideoMemory)
      ∧ (put s c).place
        = (if s.Scrolls c then ⟨24, 0⟩ else s.place.next 80 (glyph c))
      ∧ (put s c).InRange
      ∧ ((∀ i ∈ s.writes, i < 80 * 25) → ∀ i ∈ (put s c).writes, i < 80 * 25) := by
  by_cases hbreak : s.place.Breaks 80 (glyph c)
  · by_cases hy : 25 ≤ s.y.toNat + 1
    · have hscrolls : s.Scrolls c := ⟨hbreak, hy⟩
      rw [if_pos hscrolls, if_pos hscrolls, put_of_scrolls hs hbreak hy]
      exact ⟨rfl, rfl, inRange_rowStart _ (by decide) _, fun hw =>
        scrollWrites_lt _ (write_writes hs c hw)⟩
    · have hscrolls : ¬ s.Scrolls c := fun h => hy h.2
      have hnext := y_toNat_succ hs
      rw [if_neg hscrolls, if_neg hscrolls, put_of_breaks hs hbreak (Nat.not_le.mp hy),
        next_of_breaks hbreak]
      exact ⟨rfl, congrArg (Place.mk · 0) hnext, inRange_rowStart _ (by omega) _,
        write_writes hs c⟩
  · have hscrolls : ¬ s.Scrolls c := fun h => hbreak h.1
    have hnext := x_toNat_succ hs
    rw [if_neg hscrolls, if_neg hscrolls, put_of_not_breaks hs hbreak,
      next_of_not_breaks hbreak]
    refine ⟨rfl, ?_, ⟨?_, hs.y_lt⟩, write_writes hs c⟩
    · exact congrArg (Place.mk s.y.toNat) hnext
    · rw [breaks_iff, not_or] at hbreak
      show (s.x + 1).toNat < 80
      omega

/-- A call prints the characters up to the NUL, one after the other. -/
theorem printf_eq (s : Screen) (str : List UInt8) :
    printf s str = (cstr str).foldl put s := by
  unfold cstr
  induction str generalizing s with
  | nil => rfl
  | cons c str ih =>
    by_cases hc : c = 0
    · rw [printf, if_pos hc, List.takeWhile_cons_of_neg (by simpa using hc)]
      rfl
    · rw [printf, if_neg hc, List.takeWhile_cons_of_pos (by simpa using hc), ih]
      rfl

end SystemOS.Kernel.Printf
