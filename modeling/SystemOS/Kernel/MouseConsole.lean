/-
  SystemOS.Kernel.MouseConsole — the mouse cursor of the text screen.

  `MouseToConsole` shows the cursor by exchanging the two colours of its cell.  The coordinates are
  signed bytes: a sum is stored in one before it is compared with the edges of the screen.

  Main results:
    * `moveField_clamp_iff` — when one coordinate stops at the edge.
    * `interrupts_shown`    — the cursor is on the screen, and its cell is the only one with its
      colours exchanged.
    * `saturating_iff`      — the runs in which the cursor always stops at the edges.
-/
import SystemOS.Drivers.Mouse
import SystemOS.Lib.Transition
import Mathlib.Tactic.IntervalCases

namespace SystemOS.Kernel.MouseConsole

open SystemOS.Lib.Transition SystemOS.Drivers.Mouse

/-! ## §1. The code. -/

structure MouseToConsole where
  x : Int8
  y : Int8
  VideoMemory : Int → UInt16

/-- The two colours of a cell exchanged. -/
def exchange (cell : UInt16) : UInt16 :=
  ((cell &&& 0x0F00) <<< 4) ||| ((cell &&& 0xF000) >>> 4) ||| (cell &&& 0x00FF)

namespace MouseToConsole

/-- `80*y+x`. -/
def index (c : MouseToConsole) : Int := 80 * c.y.toInt + c.x.toInt

/-- The assignment to `VideoMemory[80*y+x]`. -/
def invert (c : MouseToConsole) : MouseToConsole :=
  { c with VideoMemory := Function.update c.VideoMemory c.index (exchange (c.VideoMemory c.index)) }

/-- The constructor. -/
def create (VideoMemory : Int → UInt16) : MouseToConsole := invert ⟨40, 12, VideoMemory⟩

/-- `x += xoffset; if(x >= bound) x = last; if(x < 0) x = 0;`. -/
def moveField (bound last x : Int8) (offset : Int) : Int8 :=
  let x := Int8.ofInt (x.toInt + offset)
  let x := if bound ≤ x then last else x
  if x < 0 then 0 else x

def OnMouseMove (c : MouseToConsole) (m : Int × Int) : MouseToConsole :=
  let c := c.invert
  let c := { c with x := moveField 80 79 c.x m.1, y := moveField 25 24 c.y m.2 }
  c.invert

/-- One event after the other, after the constructor. -/
def run (VideoMemory : Int → UInt16) (ms : List (Int × Int)) : MouseToConsole :=
  ms.foldl OnMouseMove (create VideoMemory)

def cursor (c : MouseToConsole) : Int × Int := (c.x.toInt, c.y.toInt)

end MouseToConsole

open MouseToConsole

/-! ## §2. A cursor that stops at the edges. -/

def clamp (v lo hi : Int) : Int := max lo (min v hi)

/-- The cursor after an offset, on a screen of 80 columns and 25 rows. -/
def saturate (p m : Int × Int) : Int × Int := (clamp (p.1 + m.1) 0 79, clamp (p.2 + m.2) 0 24)

/-- Where a cursor is after some events that stops at the edges. -/
def position (ms : List (Int × Int)) : Int × Int := ms.foldl saturate (40, 12)

/-- Each event moves the cursor as far as the edges let it. -/
def Saturating (VideoMemory : Int → UInt16) : List (Int × Int) → Prop :=
  Throughout fun before m =>
    (run VideoMemory (before ++ [m])).cursor = saturate (run VideoMemory before).cursor m

/-- No sum of a coordinate and an offset is above 127. -/
def Fits : List (Int × Int) → Prop :=
  Throughout fun before m => (position before).1 + m.1 ≤ 127 ∧ (position before).2 + m.2 ≤ 127

/-! ## §3. One coordinate. -/

/-- A sum of a coordinate and an offset, as it is stored. -/
theorem stored_toInt {v : Int} (hge : -128 ≤ v) (hle : v < 256) :
    (Int8.ofInt v).toInt = if v ≤ 127 then v else v - 256 := by
  rw [Int8.toInt_ofInt, Int.bmod_def]
  show (if v % 256 < (256 + 1) / 2 then v % 256 else v % 256 - 256) = _
  omega

/-- The coordinates from 0 to `hi`: the code compares with `bound` and goes back to `last`. -/
structure Edge (bound last : Int8) (hi : Int) : Prop where
  bound_eq : bound.toInt = hi + 1
  last_eq : last.toInt = hi
  pos : 0 < hi

section Coordinate

variable {bound last x : Int8} {offset hi : Int}

theorem moveField_toInt (he : Edge bound last hi) (hge : -128 ≤ x.toInt + offset)
    (hle : x.toInt + offset < 256) :
    (moveField bound last x offset).toInt
      = if x.toInt + offset ≤ 127 then clamp (x.toInt + offset) 0 hi else 0 := by
  obtain ⟨hbound, hlast, hpos⟩ := he
  have hstored := stored_toInt hge hle
  have hzero : (0 : Int8).toInt = 0 := rfl
  have hlt := Int8.toInt_lt bound
  simp only [moveField, clamp]
  generalize Int8.ofInt (x.toInt + offset) = v at *
  by_cases hfit : x.toInt + offset ≤ 127
  · rw [if_pos hfit] at hstored ⊢
    by_cases hbig : bound ≤ v
    · rw [if_pos hbig, if_neg]
      · rw [Int8.le_iff_toInt_le] at hbig
        omega
      · rw [Int8.lt_iff_toInt_lt]
        omega
    · rw [if_neg hbig]
      rw [Int8.le_iff_toInt_le] at hbig
      by_cases hneg : v < 0
      · rw [if_pos hneg]
        rw [Int8.lt_iff_toInt_lt] at hneg
        omega
      · rw [if_neg hneg]
        rw [Int8.lt_iff_toInt_lt] at hneg
        omega
  · rw [if_neg hfit] at hstored ⊢
    have hsmall : ¬ bound ≤ v := by
      rw [Int8.le_iff_toInt_le]
      omega
    have hneg : v < 0 := by
      rw [Int8.lt_iff_toInt_lt]
      omega
    rw [if_neg hsmall, if_pos hneg]
    rfl

/-- **When a coordinate stops at the edge.** -/
theorem moveField_clamp_iff (he : Edge bound last hi) (hge : -128 ≤ x.toInt + offset)
    (hle : x.toInt + offset < 256) :
    (moveField bound last x offset).toInt = clamp (x.toInt + offset) 0 hi
      ↔ x.toInt + offset ≤ 127 := by
  have hpos := he.pos
  rw [moveField_toInt he hge hle]
  constructor
  · intro h
    by_contra hbig
    rw [if_neg hbig, clamp] at h
    omega
  · exact fun hfit => if_pos hfit

theorem moveField_range (he : Edge bound last hi) (hge : -128 ≤ x.toInt + offset)
    (hle : x.toInt + offset < 256) :
    0 ≤ (moveField bound last x offset).toInt ∧ (moveField bound last x offset).toInt ≤ hi := by
  have hpos := he.pos
  rw [moveField_toInt he hge hle, clamp]
  split <;> omega

end Coordinate

theorem columns : Edge 80 79 79 := ⟨rfl, rfl, by decide⟩

theorem rows : Edge 25 24 24 := ⟨rfl, rfl, by decide⟩

/-! ## §4. One event. -/

/-- The cursor is on the screen. -/
structure Within (c : MouseToConsole) : Prop where
  x_ge : 0 ≤ c.x.toInt
  x_le : c.x.toInt ≤ 79
  y_ge : 0 ≤ c.y.toInt
  y_le : c.y.toInt ≤ 24

/-- The cell of the cursor has its colours exchanged, and no other cell. -/
def Shown (VideoMemory : Int → UInt16) (c : MouseToConsole) : Prop :=
  c.VideoMemory = Function.update VideoMemory c.index (exchange (VideoMemory c.index))

section Step

variable {VideoMemory : Int → UInt16} {c : MouseToConsole} {m : Int × Int}

theorem OnMouseMove_x (c : MouseToConsole) (m : Int × Int) :
    (c.OnMouseMove m).x = moveField 80 79 c.x m.1 := by
  simp only [OnMouseMove, invert]

theorem OnMouseMove_y (c : MouseToConsole) (m : Int × Int) :
    (c.OnMouseMove m).y = moveField 25 24 c.y m.2 := by
  simp only [OnMouseMove, invert]

/-- The sums before they are stored. -/
theorem sums_range (hc : Within c) (hm : Emitted m) :
    (-128 ≤ c.x.toInt + m.1 ∧ c.x.toInt + m.1 < 256)
      ∧ -128 ≤ c.y.toInt + m.2 ∧ c.y.toInt + m.2 < 256 := by
  obtain ⟨hx0, hx1, hy0, hy1⟩ := hc
  obtain ⟨hmx0, hmx1, hmy0, hmy1⟩ := hm
  omega

theorem OnMouseMove_within (hc : Within c) (hm : Emitted m) : Within (c.OnMouseMove m) := by
  obtain ⟨⟨hx0, hx1⟩, hy0, hy1⟩ := sums_range hc hm
  have hx := moveField_range columns hx0 hx1
  have hy := moveField_range rows hy0 hy1
  exact ⟨hx.1, hx.2, hy.1, hy.2⟩

/-- **One event** stops at the edges if neither sum is above 127. -/
theorem OnMouseMove_saturate_iff (hc : Within c) (hm : Emitted m) :
    (c.OnMouseMove m).cursor = saturate c.cursor m
      ↔ c.cursor.1 + m.1 ≤ 127 ∧ c.cursor.2 + m.2 ≤ 127 := by
  obtain ⟨⟨hx0, hx1⟩, hy0, hy1⟩ := sums_range hc hm
  rw [cursor, OnMouseMove_x, OnMouseMove_y, saturate, Prod.mk.injEq]
  exact and_congr (moveField_clamp_iff columns hx0 hx1) (moveField_clamp_iff rows hy0 hy1)

/-- Bit by bit: the character stays, the two colours change places twice. -/
theorem exchange_exchange (cell : UInt16) : exchange (exchange cell) = cell := by
  apply UInt16.toBitVec_inj.mp
  simp only [exchange, UInt16.toBitVec_or, UInt16.toBitVec_and, UInt16.toBitVec_shiftLeft,
    UInt16.toBitVec_shiftRight, UInt16.toBitVec_ofNat, BitVec.shiftLeft_eq',
    BitVec.ushiftRight_eq']
  ext i hi
  interval_cases i <;> simp

theorem invert_shown (h : c.VideoMemory = VideoMemory) : Shown VideoMemory c.invert := by
  subst h
  rfl

theorem invert_back (h : Shown VideoMemory c) : c.invert.VideoMemory = VideoMemory := by
  have hcell : c.VideoMemory c.index = exchange (VideoMemory c.index) := by
    rw [h, Function.update_self]
  simp only [invert]
  rw [hcell, exchange_exchange, h, Function.update_idem, Function.update_eq_self]

/-- **What is shown** after an event is the cursor where it is then. -/
theorem OnMouseMove_shown (h : Shown VideoMemory c) : Shown VideoMemory (c.OnMouseMove m) := by
  rw [OnMouseMove]
  exact invert_shown (invert_back h)

end Step

/-! ## §5. Runs. -/

section Runs

variable {VideoMemory : Int → UInt16} {ms : List (Int × Int)}

theorem run_concat (ms : List (Int × Int)) (m : Int × Int) :
    run VideoMemory (ms ++ [m]) = (run VideoMemory ms).OnMouseMove m := List.foldl_concat ..

theorem create_within (VideoMemory : Int → UInt16) : Within (create VideoMemory) where
  x_ge := show 0 ≤ (40 : Int8).toInt by decide
  x_le := show (40 : Int8).toInt ≤ 79 by decide
  y_ge := show 0 ≤ (12 : Int8).toInt by decide
  y_le := show (12 : Int8).toInt ≤ 24 by decide

theorem run_within (h : ∀ m ∈ ms, Emitted m) : Within (run VideoMemory ms) := by
  induction ms using List.reverseRecOn with
  | nil => exact create_within VideoMemory
  | append_singleton ms m ih =>
      rw [run_concat]
      exact OnMouseMove_within (ih fun x hx => h x (List.mem_append_left _ hx))
        (h m (List.mem_append_right _ List.mem_cons_self))

theorem run_shown : Shown VideoMemory (run VideoMemory ms) := by
  induction ms using List.reverseRecOn with
  | nil => rfl
  | append_singleton ms m ih =>
      rw [run_concat]
      exact OnMouseMove_shown ih

/-- **The cursor stays on the screen** over any run of interrupts of a mouse, and is the only cell
    that differs from what the screen showed before. -/
theorem interrupts_shown {d : MouseDriver} (h : d.handler = true) (command : UInt8)
    (irqs : List Interrupt) :
    let c := run VideoMemory (moves (interrupts irqs (Activate command d).2.2).1)
    Within c ∧ Shown VideoMemory c :=
  ⟨run_within (interrupts_emitted h command irqs), run_shown⟩

/-- While the cursor stops at the edges it is where it would be. -/
theorem run_cursor (h : Saturating VideoMemory ms) : (run VideoMemory ms).cursor = position ms := by
  induction ms using List.reverseRecOn with
  | nil => rfl
  | append_singleton ms m ih =>
      obtain ⟨hms, hm⟩ := throughout_concat.mp h
      rw [hm, ih hms]
      exact (List.foldl_concat ..).symm

/-- **The runs in which the cursor stops at the edges.** -/
theorem saturating_iff (VideoMemory : Int → UInt16) (ms : List (Int × Int))
    (h : ∀ m ∈ ms, Emitted m) : Saturating VideoMemory ms ↔ Fits ms := by
  refine throughout_iff h fun before m hbefore hm hsat => ?_
  rw [run_concat, OnMouseMove_saturate_iff (run_within hbefore) hm, run_cursor hsat]

/-- An offset along both edges. -/
theorem saturating_iff_corner : Saturating (fun _ => 0x0720) [(-128, -127), (127, 24)] := by
  have hfits : Fits ([] ++ [(-128, -127)] ++ [(127, 24)]) :=
    throughout_concat.mpr ⟨throughout_concat.mpr ⟨throughout_nil, by decide⟩, by decide⟩
  refine (saturating_iff _ [(-128, -127), (127, 24)] ?_).mpr hfits
  intro m hm
  rcases List.mem_pair.mp hm with rfl | rfl
  all_goals exact ⟨by decide, by decide, by decide, by decide⟩

/-- A fast movement to the right ends at the left edge. -/
theorem right_to_left : Emitted (100, 0)
    ∧ (run (fun _ => 0x0720) [(100, 0)]).cursor = (0, 12) ∧ saturate (40, 12) (100, 0) = (79, 12)
    ∧ ¬ Saturating (fun _ => 0x0720) [(100, 0)] := by
  have hcursor : (run (fun _ => 0x0720) [(100, 0)]).cursor = (0, 12) := by decide
  refine ⟨⟨by decide, by decide, by decide, by decide⟩, hcursor, by decide, ?_⟩
  intro h
  have hfirst : (run (fun _ => 0x0720) [(100, 0)]).cursor = (79, 12) := h [] (100, 0) [] rfl
  rw [hcursor] at hfirst
  exact absurd hfirst (by decide)

end Runs

end SystemOS.Kernel.MouseConsole
