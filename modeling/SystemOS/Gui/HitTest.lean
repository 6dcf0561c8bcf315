/-
  SystemOS.Gui.HitTest — drawing and hit testing agree.

  `Draw` paints containers before their children and the children from last to first, in absolute
  coordinates; `OnMouseDown` looks at the children from first to last, in coordinates of the
  container.

  Main results:
    * `covered_contains`  — a widget paints nothing outside its rectangle.
    * `last_fill`         — inside it, the last call to paint a pixel is that of the deepest widget
      that a press there reaches.
    * `draw_agrees_with_hit_test` — the same for a whole desktop.
-/
import SystemOS.Gui.Widgets

namespace SystemOS.Gui.HitTest

open SystemOS.Gui.Widgets

/-! ## §1. Trees that stay inside. -/

mutual

/-- Everything below the widget lies inside its container's rectangle. -/
def Inside : Widget → Prop
  | .widget _ => True
  | .composite f _ cs => InsideAll f cs
  | .window f _ _ cs => InsideAll f cs

/-- The children lie inside the rectangle of `f`, and so on below. -/
def InsideAll : Fields → List Widget → Prop
  | _, [] => True
  | f, c :: cs =>
    (∀ x y, c.ContainsCoordinate x y → 0 ≤ x ∧ x < f.w ∧ 0 ≤ y ∧ y < f.h)
      ∧ Inside c ∧ InsideAll f cs

end

theorem insideAll_mem (f : Fields) (cs : List Widget) (h : InsideAll f cs) :
    ∀ c ∈ cs, Inside c := by
  induction cs with
  | nil => exact fun c hc => absurd hc List.not_mem_nil
  | cons v cs ih =>
    obtain ⟨_, hv, hcs⟩ := h
    intro c hc
    rcases List.mem_cons.mp hc with rfl | hc
    · exact hv
    · exact ih hcs c hc

/-! ## §2. Coordinates. -/

/-- The point of the screen at which the interior of a container starts. -/
def origin (parents : List Fields) : Int × Int := ModelToScreen parents (0, 0)

theorem origin_cons (f : Fields) (parents : List Fields) :
    origin (f :: parents) = ((origin parents).1 + f.x, (origin parents).2 + f.y) := rfl

/-- A fill covers what the hit test of the widget contains, seen from its container. -/
theorem drawSelf_covers (f : Fields) (parents : List Fields) (px py : Int) :
    (drawSelf f parents).covers px py
      = (Widget.widget f).ContainsCoordinate (px - (origin parents).1) (py - (origin parents).2) := by
  rw [Bool.eq_iff_iff, Widget.contains_iff, Fill.covers_iff]
  show ((origin parents).1 + f.x ≤ px ∧ px < (origin parents).1 + f.x + f.w)
      ∧ (origin parents).2 + f.y ≤ py ∧ py < (origin parents).2 + f.y + f.h
    ↔ (f.x ≤ px - (origin parents).1 ∧ px - (origin parents).1 < f.x + f.w)
      ∧ f.y ≤ py - (origin parents).2 ∧ py - (origin parents).2 < f.y + f.h
  omega

/-! ## §3. A widget paints inside its rectangle. -/

mutual

theorem covered_contains (v : Widget) (hv : Inside v) (parents : List Fields) (px py : Int) :
    (∃ c ∈ v.Draw parents, c.covers px py) →
      v.ContainsCoordinate (px - (origin parents).1) (py - (origin parents).2) := by
  cases v with
  | widget f =>
    rintro ⟨c, hc, hcovers⟩
    rw [Widget.Draw, List.mem_singleton] at hc
    rw [hc, drawSelf_covers] at hcovers
    exact hcovers
  | composite f focussed cs => exact container_contains f cs hv parents px py
  | window f dragging focussed cs => exact container_contains f cs hv parents px py

/-- A container and its children. -/
theorem container_contains (f : Fields) (cs : List Widget) (hcs : InsideAll f cs)
    (parents : List Fields) (px py : Int) :
    (∃ c ∈ drawSelf f parents :: drawChildren cs (f :: parents) 0, c.covers px py) →
      (Widget.widget f).ContainsCoordinate (px - (origin parents).1)
        (py - (origin parents).2) := by
  rintro ⟨c, hc, hcovers⟩
  rcases List.mem_cons.mp hc with rfl | hc
  · rw [drawSelf_covers] at hcovers
    exact hcovers
  -- The interior of `f` starts at its own corner.
  · have h := children_contain f cs hcs parents px py 0 ⟨c, hc, hcovers⟩
    rw [origin_cons] at h
    simp only at h
    rw [Widget.contains_iff]
    show (f.x ≤ _ ∧ _ < f.x + f.w) ∧ f.y ≤ _ ∧ _ < f.y + f.h
    omega

/-- What the children paint lies in the rectangle of their container. -/
theorem children_contain (f : Fields) (cs : List Widget) (hcs : InsideAll f cs)
    (parents : List Fields) (px py : Int) (i : Nat) :
    (∃ c ∈ drawChildren cs (f :: parents) i, c.covers px py) →
      0 ≤ px - (origin (f :: parents)).1 ∧ px - (origin (f :: parents)).1 < f.w
        ∧ 0 ≤ py - (origin (f :: parents)).2 ∧ py - (origin (f :: parents)).2 < f.h := by
  cases cs with
  | nil =>
    rintro ⟨c, hc, _⟩
    rw [drawChildren] at hc
    exact absurd hc List.not_mem_nil
  | cons v cs =>
    obtain ⟨hrect, hv, hcs⟩ := hcs
    rintro ⟨c, hc, hcovers⟩
    rw [drawChildren, List.mem_append] at hc
    rcases hc with hc | hc
    -- The later children are drawn first.
    · exact children_contain f cs hcs parents px py (i + 1) ⟨c, hc, hcovers⟩
    · obtain ⟨c', hc', rfl⟩ := List.mem_map.mp hc
      exact hrect _ _ (covered_contains v hv (f :: parents) px py ⟨c', hc', hcovers⟩)

end

/-! ## §4. The last fill of a pixel. -/

/-- The widget of the last call that paints the pixel. -/
def lastFill (fills : List Fill) (px py : Int) : Option Path :=
  (fills.filter (·.covers px py)).getLast?.map Fill.widget

theorem lastFill_append (cs cs' : List Fill) (px py : Int) :
    lastFill (cs ++ cs') px py = (lastFill cs' px py).or (lastFill cs px py) := by
  unfold lastFill
  rw [List.filter_append, List.getLast?_append]
  cases (List.filter (·.covers px py) cs').getLast? <;> rfl

/-- Seen from the container. -/
theorem lastFill_below (i : Nat) (cs : List Fill) (px py : Int) :
    lastFill (cs.map (Fill.below i)) px py = (lastFill cs px py).map (i :: ·) := by
  unfold lastFill
  rw [List.filter_map, List.getLast?_map, Option.map_map, Option.map_map]
  rfl

theorem lastFill_none (cs : List Fill) (px py : Int) :
    lastFill cs px py = none ↔ ¬ ∃ c ∈ cs, c.covers px py := by
  unfold lastFill
  rw [Option.map_eq_none_iff, List.getLast?_eq_none_iff, List.filter_eq_nil_iff]
  exact ⟨fun h ⟨c, hc, hcovers⟩ => h c hc hcovers, fun h c hc hcovers => h ⟨c, hc, hcovers⟩⟩

/-- A container paints itself first, so a child that paints the pixel paints it later. -/
theorem lastFill_container (f : Fields) (parents : List Fields) (fills : List Fill) (px py : Int)
    (h : (Widget.widget f).ContainsCoordinate (px - (origin parents).1)
      (py - (origin parents).2)) :
    lastFill (drawSelf f parents :: fills) px py = some ((lastFill fills px py).getD []) := by
  have hself : lastFill [drawSelf f parents] px py = some [] := by
    unfold lastFill
    rw [← drawSelf_covers] at h
    rw [List.filter_cons, if_pos h]
    rfl
  rw [← List.singleton_append, lastFill_append, hself]
  cases lastFill fills px py <;> rfl

/-! ## §5. The deepest widget that is pressed. -/

/-- The deepest call below a loop over the children. -/
def lastCall (children : List Widget) (x y : Int) (b : UInt8) : Option Path :=
  (firstchild children x y).bind fun i =>
    (downAll children x y b)[i]?.bind fun press => press.calls.getLast?.map (i :: ·)

/-- The first child contains the point. -/
theorem lastCall_here (c : Widget) (cs : List Widget) (x y : Int) (b : UInt8)
    (h : c.ContainsCoordinate x y) :
    lastCall (c :: cs) x y b = (c.OnMouseDown x y b).calls.getLast?.map (0 :: ·) := by
  unfold lastCall firstchild
  rw [List.findIdx?_cons, if_pos h, downAll]
  rfl

/-- Move the index of a path's first step. -/
def shift (n : Nat) : Path → Path
  | [] => []
  | i :: p => (i + n) :: p

theorem shift_zero (p : Option Path) : p.map (shift 0) = p := by
  rcases p with _ | _ | ⟨i, p⟩ <;> rfl

theorem shift_shift (m n : Nat) (p : Path) : shift m (shift n p) = shift (n + m) p := by
  cases p with
  | nil => rfl
  | cons i p => exact congrArg (· :: p) (Nat.add_assoc i n m)

/-- The loop goes on to the next child. -/
theorem lastCall_next (c : Widget) (cs : List Widget) (x y : Int) (b : UInt8)
    (h : ¬ c.ContainsCoordinate x y) :
    lastCall (c :: cs) x y b = (lastCall cs x y b).map (shift 1) := by
  unfold lastCall firstchild
  rw [List.findIdx?_cons, if_neg h, downAll]
  cases List.findIdx? (·.ContainsCoordinate x y) cs with
  | none => rfl
  | some i =>
    simp only [Option.map_some, Option.bind_some, List.getElem?_cons_succ]
    cases (downAll cs x y b)[i]? with
    | none => rfl
    | some press => rw [Option.bind_some, Option.bind_some, Option.map_map]; rfl

/-- The calls that a container makes end with those of its child. -/
theorem container_calls (f : Fields) (focussed : Option Nat) (cs : List Widget) (x y : Int)
    (b : UInt8) :
    (CompositeWidget.OnMouseDown f focussed cs (downAll cs (x - f.x) (y - f.y) b) x y).calls.getLast?
      = some ((lastCall cs (x - f.x) (y - f.y) b).getD []) := by
  unfold CompositeWidget.OnMouseDown lastCall
  cases firstchild cs (x - f.x) (y - f.y) with
  | none => rfl
  | some i =>
    dsimp only [Option.bind_some]
    cases (downAll cs (x - f.x) (y - f.y) b)[i]? with
    | none => rfl
    | some press =>
      show ([] :: press.calls.map (i :: ·)).getLast? = _
      rw [List.getLast?_cons, List.getLast?_map]
      rfl

/-- A press always reaches the widget that it is handed to. -/
theorem exists_lastCall (v : Widget) (x y : Int) (b : UInt8) :
    ∃ p, (v.OnMouseDown x y b).calls.getLast? = some p := by
  cases v with
  | widget f => exact ⟨[], rfl⟩
  | composite f focussed cs =>
    rw [Widget.OnMouseDown]
    exact ⟨_, container_calls f focussed cs x y b⟩
  | window f dragging focussed cs =>
    rw [Widget.OnMouseDown]
    exact ⟨_, container_calls f focussed cs x y b⟩

mutual

theorem last_fill (v : Widget) (hv : Inside v) (parents : List Fields) (px py : Int) (b : UInt8)
    (h : v.ContainsCoordinate (px - (origin parents).1) (py - (origin parents).2)) :
    lastFill (v.Draw parents) px py
      = (v.OnMouseDown (px - (origin parents).1) (py - (origin parents).2) b).calls.getLast? := by
  cases v with
  | widget f => exact lastFill_container f parents [] px py h
  | composite f focussed cs =>
    rw [Widget.Draw, Widget.OnMouseDown, container_calls, lastFill_container f _ _ px py h,
      last_fill_children cs (insideAll_mem f cs hv) _ px py b 0, shift_zero, origin_cons, ← Int.sub_sub,
      ← Int.sub_sub]
  | window f dragging focussed cs =>
    rw [Widget.Draw, Widget.OnMouseDown, container_calls, lastFill_container f _ _ px py h,
      last_fill_children cs (insideAll_mem f cs hv) _ px py b 0, shift_zero, origin_cons, ← Int.sub_sub,
      ← Int.sub_sub]

/-- The last fill of the children is below the first child that contains the pixel. -/
theorem last_fill_children (cs : List Widget) (hcs : ∀ c ∈ cs, Inside c) (parents : List Fields)
    (px py : Int) (b : UInt8) (i : Nat) :
    lastFill (drawChildren cs parents i) px py
      = (lastCall cs (px - (origin parents).1) (py - (origin parents).2) b).map (shift i) := by
  cases cs with
  | nil => rw [drawChildren]; rfl
  | cons v cs =>
    have hv := hcs v List.mem_cons_self
    rw [drawChildren, lastFill_append, lastFill_below]
    by_cases h : v.ContainsCoordinate (px - (origin parents).1) (py - (origin parents).2)
    -- The first child is drawn last, and it is the one that is pressed.
    · obtain ⟨p, hp⟩ := exists_lastCall v (px - (origin parents).1) (py - (origin parents).2) b
      rw [last_fill v hv parents px py b h, lastCall_here v cs _ _ b h, hp]
      show some (i :: p) = some ((0 + i) :: p)
      rw [Nat.zero_add]
    -- The press passes the child by, and so does the paint, as its tree stays inside it.
    · have hnone := (lastFill_none _ px py).mpr fun hc => h (covered_contains v hv _ px py hc)
      rw [hnone, last_fill_children cs (fun c hc => hcs c (List.mem_cons_of_mem v hc)) parents px py
        b (i + 1), lastCall_next v cs _ _ b h, Option.map_none, Option.none_or, Option.map_map]
      congr 1
      funext p
      rw [Function.comp_apply, shift_shift, Nat.add_comm]

end

/-! ## §6. A whole desktop. -/

/-- For every tree below a desktop and every pixel of it, the press at that pixel goes as deep as
the widget that paints the pixel last. -/
theorem draw_agrees_with_hit_test (d : Desktop) (b : UInt8) (hin : ∀ c ∈ d.children, Inside c)
    (hx : 0 ≤ d.MouseX ∧ d.MouseX < d.w) (hy : 0 ≤ d.MouseY ∧ d.MouseY < d.h) :
    ∃ p, (d.OnMouseDown b).2.getLast? = some p
      ∧ (d.Draw.1.filter (·.covers d.MouseX d.MouseY)).getLast?.map Fill.widget = some p := by
  have hself : (Widget.widget d.fields).ContainsCoordinate (d.MouseX - (origin []).1)
      (d.MouseY - (origin []).2) := by
    rw [Widget.contains_iff]
    show (0 ≤ d.MouseX - 0 ∧ d.MouseX - 0 < 0 + d.w) ∧ 0 ≤ d.MouseY - 0 ∧ d.MouseY - 0 < 0 + d.h
    omega
  refine ⟨_, container_calls d.fields d.focussedChild d.children d.MouseX d.MouseY b, ?_⟩
  have h := lastFill_container d.fields [] (drawChildren d.children [d.fields] 0) d.MouseX d.MouseY
    hself
  rw [last_fill_children d.children hin [d.fields] d.MouseX d.MouseY b 0, shift_zero] at h
  exact h

/-- A window with a button in it, the mouse on the button, and the same window once more behind. -/
def buttonDesktop : Desktop :=
  let window := Widget.window ⟨5, 5, 10, 10, 1, 1, 1, true⟩ false none
    [.widget ⟨2, 2, 4, 4, 2, 2, 2, true⟩]
  ⟨20, 20, 0, 0, 0, none, [window, window], 8, 8⟩

theorem draw_agrees_with_hit_test_button : (buttonDesktop.OnMouseDown 1).2.getLast? = some [0, 0]
    ∧ ∃ p, (buttonDesktop.OnMouseDown 1).2.getLast? = some p
      ∧ (buttonDesktop.Draw.1.filter (·.covers 8 8)).getLast?.map Fill.widget = some p := by
  refine ⟨rfl, draw_agrees_with_hit_test buttonDesktop 1 ?_ (by decide) (by decide)⟩
  have hwindow : Inside (.window ⟨5, 5, 10, 10, 1, 1, 1, true⟩ false none
      [.widget ⟨2, 2, 4, 4, 2, 2, 2, true⟩]) := by
    refine ⟨fun x y h => ?_, trivial, trivial⟩
    rw [Widget.contains_iff] at h
    show 0 ≤ x ∧ x < 10 ∧ 0 ≤ y ∧ y < 10
    obtain ⟨⟨hx, hx'⟩, hy, hy'⟩ := h
    change 2 ≤ x at hx
    change x < 2 + 4 at hx'
    change 2 ≤ y at hy
    change y < 2 + 4 at hy'
    omega
  intro c hc
  rcases List.mem_cons.mp hc with rfl | hc
  · exact hwindow
  · exact (List.mem_singleton.mp hc) ▸ hwindow

end SystemOS.Gui.HitTest
