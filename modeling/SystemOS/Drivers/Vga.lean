/-
  SystemOS.Drivers.Vga — rectangles on the 320 x 200 screen.

  `FillRectangle` takes the corner and the size as unsigned numbers and counts with signed ones, so
  the comparisons of its loops are unsigned; `PutPixel` clips every pixel to the screen.

  Main results:
    * `fillRectangle_paints` — which pixels are painted.
    * `paintsExactly_iff`    — when these are the pixels of the rectangle.
-/
import Mathlib.Algebra.Order.Ring.Int
import SystemOS.Lib.Painting

namespace SystemOS.Drivers.Vga

open SystemOS.Lib.Painting

/-! ## §1. The driver. -/

/-- The memory that pixels are stored in. -/
abbrev Mem := Nat → UInt8

/-- The segment that bits 2 and 3 of the graphics controller's register 6 select. -/
def GetFrameBufferSegment (register : UInt8) : Nat :=
  match register &&& 12 with
  | 4 => 0xA0000
  | 8 => 0xB0000
  | 12 => 0xB8000
  | _ => 0x00000

def GetColorIndex (r g b : UInt8) : UInt8 :=
  if r = 0x00 ∧ g = 0x00 ∧ b = 0x00 then 0x00
  else if r = 0x00 ∧ g = 0x00 ∧ b = 0xA8 then 0x01
  else if r = 0x00 ∧ g = 0xA8 ∧ b = 0x00 then 0x02
  else if r = 0xA8 ∧ g = 0x00 ∧ b = 0x00 then 0x04
  else if r = 0xFF ∧ g = 0xFF ∧ b = 0xFF then 0x3F
  else 0x00

/-- `PutPixel`, with the answer of the memory map register. -/
def PutPixel (register : UInt8) (x y : Int32) (colorIndex : UInt8) (mem : Mem) : Mem :=
  if x < 0 ∨ 320 ≤ x ∨ y < 0 ∨ 200 ≤ y then mem
  else Function.update mem
    (GetFrameBufferSegment register + (320 * y.toInt + x.toInt).toNat) colorIndex

theorem toNat_succ {i : Int32} {n : Nat} (h : i.toUInt32.toNat < n) (hn : n < 2 ^ 32) :
    (i + 1).toUInt32.toNat = i.toUInt32.toNat + 1 := by
  rw [Int32.toUInt32_add, UInt32.toNat_add]
  show (i.toUInt32.toNat + 1) % 2 ^ 32 = i.toUInt32.toNat + 1
  omega

/-- `for(int32_t i = …; i < stop; i++)` with an unsigned `stop`: the comparison is unsigned. -/
def forLoop {σ : Type} (stop : UInt32) (body : Int32 → σ → σ) (i : Int32) (s : σ) : σ :=
  if i.toUInt32 < stop then forLoop stop body (i + 1) (body i s) else s
termination_by stop.toNat - i.toUInt32.toNat
decreasing_by
  rename_i hlt
  rw [UInt32.lt_iff_toNat_lt] at hlt
  rw [toNat_succ hlt stop.toNat_lt]
  omega

def FillRectangle (register : UInt8) (x y w h : UInt32) (r g b : UInt8) (mem : Mem) : Mem :=
  forLoop (y + h) (fun Y => forLoop (x + w)
    (fun X => PutPixel register X Y (GetColorIndex r g b)) x.toInt32) y.toInt32 mem

/-! ## §2. The loops. -/

section Loop

variable {α β : Type} {c : β} {body : Int32 → (α → β) → α → β} {S : Int32 → Set α}

/-- A loop paints what its turns paint: those from the start to the bound, as unsigned numbers. -/
theorem forLoop_paints (hbody : ∀ i, Paints c (body i) (S i)) (stop : UInt32) (i : Int32) :
    Paints c (forLoop stop body i)
      {a | ∃ k : Int32, i.toUInt32 ≤ k.toUInt32 ∧ k.toUInt32 < stop ∧ a ∈ S k} := by
  induction hn : stop.toNat - i.toUInt32.toNat using Nat.strongRecOn generalizing i with
  | _ n ih =>
  by_cases hlt : i.toUInt32 < stop
  · have hloop : forLoop stop body i = fun mem => forLoop stop body (i + 1) (body i mem) :=
      funext fun mem => by rw [forLoop, if_pos hlt]
    rw [UInt32.lt_iff_toNat_lt] at hlt
    have hnext := toNat_succ hlt stop.toNat_lt
    rw [hloop]
    refine ((hbody i).comp (ih _ (by omega) (i + 1) rfl)).congr fun a => ?_
    simp only [UInt32.le_iff_toNat_le, UInt32.lt_iff_toNat_lt, hnext, Set.mem_union,
      Set.mem_ofPred_eq]
    constructor
    · rintro (hi | ⟨k, hk, hstop, ha⟩)
      · exact ⟨i, Nat.le_refl _, hlt, hi⟩
      · exact ⟨k, by omega, hstop, ha⟩
    · rintro ⟨k, hk, hstop, ha⟩
      by_cases heq : i.toUInt32.toNat = k.toUInt32.toNat
      · obtain rfl : i = k := congrArg UInt32.toInt32 (UInt32.toNat_inj.mp heq)
        exact Or.inl ha
      · exact Or.inr ⟨k, by omega, hstop, ha⟩
  · have hloop : forLoop stop body i = fun mem => mem :=
      funext fun mem => by rw [forLoop, if_neg hlt]
    rw [hloop]
    refine (Paints.refl c).congr fun a => ⟨fun h => h.elim, fun ⟨k, hk, hstop, _⟩ => ?_⟩
    exact absurd (UInt32.lt_of_le_of_lt hk hstop) hlt

end Loop

/-! ## §3. The rectangle. -/

/-- A pixel of the 320 x 200 screen. -/
def OnScreen (X Y : Int) : Prop := 0 ≤ X ∧ X < 320 ∧ 0 ≤ Y ∧ Y < 200

/-- Where the pixel of a place of the screen is kept. -/
def pixelAddress (register : UInt8) (X Y : Int) : Nat :=
  GetFrameBufferSegment register + (320 * Y + X).toNat

/-- Where the pixels of the screen are kept that lie in the rectangle. -/
def visible (register : UInt8) (x y w h : Int) : Set Nat :=
  {a | ∃ X Y, OnScreen X Y ∧ (x ≤ X ∧ X < x + w) ∧ (y ≤ Y ∧ Y < y + h)
    ∧ a = pixelAddress register X Y}

/-- `FillRectangle`, called as `Widget::Draw` does, paints what of the rectangle is on the screen. -/
def PaintsExactly (register : UInt8) (x y w h : Int32) (r g b : UInt8) : Prop :=
  Paints (GetColorIndex r g b)
    (FillRectangle register x.toUInt32 y.toUInt32 w.toUInt32 h.toUInt32 r g b)
    (visible register x.toInt y.toInt w.toInt h.toInt)

theorem putPixel_paints (register : UInt8) (X Y : Int32) (c : UInt8) :
    Paints c (PutPixel register X Y c)
      {a | OnScreen X.toInt Y.toInt ∧ a = pixelAddress register X.toInt Y.toInt} := by
  by_cases hclip : X < 0 ∨ 320 ≤ X ∨ Y < 0 ∨ 200 ≤ Y
  · have hput : PutPixel register X Y c = fun mem => mem := funext fun mem => if_pos hclip
    rw [hput]
    refine (Paints.refl c).congr fun a => ⟨fun h => h.elim, fun ⟨hon, _⟩ => ?_⟩
    simp only [Int32.lt_iff_toInt_lt, Int32.le_iff_toInt_le] at hclip
    obtain ⟨hX, hX', hY, hY'⟩ := hon
    rcases hclip with h | h | h | h
    · exact absurd hX (Int.not_le.mpr h)
    · exact absurd hX' (Int.not_lt.mpr h)
    · exact absurd hY (Int.not_le.mpr h)
    · exact absurd hY' (Int.not_lt.mpr h)
  · have hput : PutPixel register X Y c = fun mem =>
        Function.update mem (pixelAddress register X.toInt Y.toInt) c :=
      funext fun mem => if_neg hclip
    rw [hput]
    refine (Paints.update c _).congr fun a => (and_iff_right ?_).symm
    simp only [not_or, Int32.lt_iff_toInt_lt, Int32.le_iff_toInt_le, Int.not_lt, Int.not_le]
      at hclip
    exact ⟨hclip.1, hclip.2.1, hclip.2.2.1, hclip.2.2.2⟩

/-- A signed number by the unsigned one of the same bits. -/
theorem toInt_eq (i : Int32) : i.toInt = if 2 * i.toUInt32.toNat < 2 ^ 32
    then (i.toUInt32.toNat : Int) else (i.toUInt32.toNat : Int) - (2 ^ 32 : Nat) :=
  BitVec.toInt_eq_toNat_cond i.toBitVec

/-- The turns of a loop that a place of the screen can belong to: there are none from a negative
    start on. -/
theorem visited_iff {x w k : Int32} (hw : 0 ≤ w) (hfar : x.toInt + w.toInt < 2 ^ 31)
    (hk : 0 ≤ k.toInt) :
    (x.toUInt32 ≤ k.toUInt32 ∧ k.toUInt32 < x.toUInt32 + w.toUInt32)
      ↔ 0 ≤ x.toInt ∧ x.toInt ≤ k.toInt ∧ k.toInt < x.toInt + w.toInt := by
  rw [Int32.le_iff_toInt_le] at hw
  change 0 ≤ w.toInt at hw
  rw [UInt32.le_iff_toNat_le, UInt32.lt_iff_toNat_lt, UInt32.toNat_add]
  have hx' := x.toUInt32.toNat_lt
  have hw' := w.toUInt32.toNat_lt
  have hk' := k.toUInt32.toNat_lt
  rw [toInt_eq] at hw hk
  rw [toInt_eq x, toInt_eq w] at hfar
  rw [toInt_eq x, toInt_eq w, toInt_eq k]
  split at hw <;> split at hk <;> split at hfar <;> split <;> omega

instance nontrivial_byte : Nontrivial UInt8 := ⟨0, 1, by decide⟩

/-- Every place of the screen is one of the signed 32-bit coordinates. -/
theorem exists_coordinate {X : Int} (h0 : 0 ≤ X) (h : X < 320) : ∃ k : Int32, k.toInt = X :=
  ⟨Int32.ofInt X, Int32.toInt_ofInt_of_le (by omega) (by omega)⟩

variable (register : UInt8) {x y w h : Int32} (r g b : UInt8)

/-- **Where `FillRectangle` paints**: what is on the screen of a rectangle whose corner is neither
    above nor left of it, and nothing of another one. -/
theorem fillRectangle_paints (hw : 0 ≤ w) (hh : 0 ≤ h) (hx : x.toInt + w.toInt < 2 ^ 31)
    (hy : y.toInt + h.toInt < 2 ^ 31) :
    Paints (GetColorIndex r g b)
      (FillRectangle register x.toUInt32 y.toUInt32 w.toUInt32 h.toUInt32 r g b)
      {a | (0 ≤ x.toInt ∧ 0 ≤ y.toInt)
        ∧ a ∈ visible register x.toInt y.toInt w.toInt h.toInt} := by
  refine (forLoop_paints (fun Y => forLoop_paints (fun X => putPixel_paints register X Y _) _ _)
    _ _).congr fun a => ?_
  constructor
  · rintro ⟨Y, hY, hY', X, hX, hX', hon, ha⟩
    have hrow := (visited_iff hh hy hon.2.2.1).mp ⟨hY, hY'⟩
    have hcolumn := (visited_iff hw hx hon.1).mp ⟨hX, hX'⟩
    exact ⟨⟨hcolumn.1, hrow.1⟩, X.toInt, Y.toInt, hon, hcolumn.2, hrow.2, ha⟩
  · rintro ⟨⟨hx0, hy0⟩, X, Y, hon, hcolumn, hrow, ha⟩
    obtain ⟨k, rfl⟩ := exists_coordinate hon.1 hon.2.1
    obtain ⟨l, rfl⟩ := exists_coordinate hon.2.2.1 (Int.lt_trans hon.2.2.2 (by decide))
    have hY := (visited_iff hh hy hon.2.2.1).mpr ⟨hy0, hrow⟩
    have hX := (visited_iff hw hx hon.1).mpr ⟨hx0, hcolumn⟩
    exact ⟨l, hY.1, hY.2, k, hX.1, hX.2, hon, ha⟩

/-- The rectangle has no pixel on the screen. -/
def Misses (x y w h : Int) : Prop :=
  w = 0 ∨ h = 0 ∨ x + w ≤ 0 ∨ 320 ≤ x ∨ y + h ≤ 0 ∨ 200 ≤ y

theorem misses_iff {x y w h : Int} (hw : 0 ≤ w) (hh : 0 ≤ h) :
    (∀ a, a ∉ visible register x y w h) ↔ Misses x y w h := by
  constructor
  · intro hnone
    by_contra hmeets
    -- the first pixel of the rectangle that is on the screen
    refine hnone _ ⟨max 0 x, max 0 y, ?_, ?_, ?_, rfl⟩
    all_goals
      unfold Misses at hmeets
      try unfold OnScreen
      omega
  · rintro hmiss a ⟨X, Y, hon, hX, hY, -⟩
    unfold Misses at hmiss
    unfold OnScreen at hon
    omega

/-- **`FillRectangle` paints the rectangle** exactly when its corner is neither above nor left of the
    screen, or when no pixel of it is on the screen. -/
theorem paintsExactly_iff (hw : 0 ≤ w) (hh : 0 ≤ h) (hx : x.toInt + w.toInt < 2 ^ 31)
    (hy : y.toInt + h.toInt < 2 ^ 31) :
    PaintsExactly register x y w h r g b
      ↔ (0 ≤ x.toInt ∧ 0 ≤ y.toInt) ∨ Misses x.toInt y.toInt w.toInt h.toInt := by
  rw [PaintsExactly, (fillRectangle_paints register r g b hw hh hx hy).iff_eq,
    ← misses_iff register (Int32.le_iff_toInt_le.mp hw) (Int32.le_iff_toInt_le.mp hh)]
  constructor
  · intro heq
    by_cases hcorner : 0 ≤ x.toInt ∧ 0 ≤ y.toInt
    · exact Or.inl hcorner
    · refine Or.inr fun a ha => hcorner ?_
      rw [← heq] at ha
      exact ha.1
  · rintro (hcorner | hmiss)
    · exact Set.ext fun a => and_iff_right hcorner
    · exact Set.ext fun a => ⟨fun ha => ha.2, fun ha => absurd ha (hmiss a)⟩

/-- A window in the middle of the screen. -/
theorem paintsExactly_iff_window : PaintsExactly 4 40 40 30 30 0xA8 0 0
    ↔ ((0 : Int) ≤ 40 ∧ (0 : Int) ≤ 40) ∨ Misses 40 40 30 30 :=
  paintsExactly_iff 4 0xA8 0 0 (by decide) (by decide) (by decide) (by decide)

/-- A window dragged 5 pixels over the left edge is not painted. -/
theorem dragged_window : ¬ ∀ (register : UInt8) (x y w h : Int32) (r g b : UInt8),
    0 ≤ w → 0 ≤ h → x.toInt + w.toInt < 2 ^ 31 → y.toInt + h.toInt < 2 ^ 31 →
      PaintsExactly register x y w h r g b := by
  intro hclaim
  have hpaints := hclaim 4 (-5) 0 10 10 0xA8 0 0 (by decide) (by decide) (by decide) (by decide)
  rw [PaintsExactly, (fillRectangle_paints 4 0xA8 0 0 (by decide) (by decide) (by decide)
    (by decide)).iff_eq] at hpaints
  have hfirst : pixelAddress 4 0 0 ∈ visible 4 (-5) 0 10 10 :=
    ⟨0, 0, ⟨by decide, by decide, by decide, by decide⟩, by decide, by decide, rfl⟩
  exact absurd (hpaints ▸ hfirst).1.1 (by decide)

end SystemOS.Drivers.Vga
