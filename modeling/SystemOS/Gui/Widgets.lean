/-
  SystemOS.Gui.Widgets — the widget tree of the desktop: drawing, mouse events and keys.

  Each definition carries the name of the C++ method it translates; a method of `CompositeWidget`
  that `Window` inherits or calls is a function of the children and of what the calls into them
  return.  A widget in the tree is named by its path, the list of child indices from the root.
  Coordinates are integers: signed overflow has no meaning in the source.
-/
import Mathlib.Data.List.Basic

namespace SystemOS.Gui.Widgets

/-! ## §1. Widgets. -/

/-- The fields of class `Widget`, without the parent pointer: the parent is the container. -/
structure Fields where
  x : Int
  y : Int
  w : Int
  h : Int
  r : UInt8
  g : UInt8
  b : UInt8
  Focussable : Bool

/-- A widget with everything below it; `focussedChild` is the index of a child. -/
inductive Widget
  | widget (f : Fields)
  | composite (f : Fields) (focussedChild : Option Nat) (children : List Widget)
  | window (f : Fields) (Dragging : Bool) (focussedChild : Option Nat) (children : List Widget)

abbrev Path := List Nat

namespace Widget

def fields : Widget → Fields
  | .widget f => f
  | .composite f _ _ => f
  | .window f _ _ _ => f

def children : Widget → List Widget
  | .widget _ => []
  | .composite _ _ cs => cs
  | .window _ _ _ cs => cs

def isWindow : Widget → Bool
  | .window _ _ _ _ => true
  | _ => false

/-- The flag of a window. -/
def dragging : Widget → Bool
  | .window _ d _ _ => d
  | _ => false

def ContainsCoordinate (v : Widget) (x y : Int) : Bool :=
  v.fields.x ≤ x && x < v.fields.x + v.fields.w && v.fields.y ≤ y && y < v.fields.y + v.fields.h

theorem contains_iff (v : Widget) (x y : Int) : v.ContainsCoordinate x y = true
    ↔ (v.fields.x ≤ x ∧ x < v.fields.x + v.fields.w)
      ∧ v.fields.y ≤ y ∧ y < v.fields.y + v.fields.h := by
  unfold ContainsCoordinate
  simp only [Bool.and_eq_true, decide_eq_true_eq, and_assoc]

/-- The widget at a path. -/
def sub : Widget → Path → Option Widget
  | v, [] => some v
  | v, i :: p => v.children[i]?.bind (·.sub p)

end Widget

/-- The child that a loop over the children stops at. -/
def firstchild (children : List Widget) (x y : Int) : Option Nat :=
  children.findIdx? (·.ContainsCoordinate x y)

/-! ## §2. Drawing. -/

/-- A call of `FillRectangle`, with the path of the widget that makes it. -/
structure Fill where
  widget : Path
  X : Int
  Y : Int
  w : Int
  h : Int
  r : UInt8
  g : UInt8
  b : UInt8

/-- The pixels of the rectangle that `FillRectangle` is asked for. -/
def Fill.covers (c : Fill) (px py : Int) : Bool :=
  c.X ≤ px && px < c.X + c.w && c.Y ≤ py && py < c.Y + c.h

theorem Fill.covers_iff (c : Fill) (px py : Int) : c.covers px py = true
    ↔ (c.X ≤ px ∧ px < c.X + c.w) ∧ c.Y ≤ py ∧ py < c.Y + c.h := by
  unfold Fill.covers
  simp only [Bool.and_eq_true, decide_eq_true_eq, and_assoc]

/-- The same call seen from the container, in which the widget hangs below child `i`. -/
def Fill.below (i : Nat) (c : Fill) : Fill := { c with widget := i :: c.widget }

/-- `ModelToScreen` of the first of a list of widgets, each the child of the next. -/
def ModelToScreen : List Fields → Int × Int → Int × Int
  | [], at_ => at_
  | this :: parents, at_ =>
    let at_ := ModelToScreen parents at_
    (at_.1 + this.x, at_.2 + this.y)

/-- `Widget::Draw`. -/
def drawSelf (this : Fields) (parents : List Fields) : Fill :=
  let at_ := ModelToScreen (this :: parents) (0, 0)
  { widget := [], X := at_.1, Y := at_.2, w := this.w, h := this.h, r := this.r, g := this.g,
    b := this.b }

mutual

/-- `Draw`, with the fields of the containers, innermost first. -/
def Widget.Draw : Widget → List Fields → List Fill
  | .widget f, parents => [drawSelf f parents]
  | .composite f _ cs, parents => drawSelf f parents :: drawChildren cs (f :: parents) 0
  | .window f _ _ cs, parents => drawSelf f parents :: drawChildren cs (f :: parents) 0

/-- The loop over the children from index `i` on: the last one draws first. -/
def drawChildren : List Widget → List Fields → Nat → List Fill
  | [], _, _ => []
  | c :: cs, parents, i =>
    drawChildren cs parents (i + 1) ++ (c.Draw parents).map (Fill.below i)

end

/-! ## §3. A button goes down. -/

/-- What a call of `OnMouseDown` leaves: the widget, whether it asked its parent for the focus, and
    the widgets whose `OnMouseDown` was invoked, outermost first. -/
structure Press where
  widget : Widget
  focus : Bool
  calls : List Path

/-- The members of a container after its loop over the children. -/
structure Routed where
  children : List Widget
  focussedChild : Option Nat
  focus : Bool
  calls : List Path

/-- `CompositeWidget::OnMouseDown`, with the results of the calls into the children; a child that
    takes the focus makes its container call `GetFocus` in turn. -/
def CompositeWidget.OnMouseDown (f : Fields) (focussedChild : Option Nat) (children : List Widget)
    (presses : List Press) (x y : Int) : Routed :=
  match firstchild children (x - f.x) (y - f.y) with
  | none => ⟨children, focussedChild, false, [[]]⟩
  | some i =>
    match presses[i]? with
    | none => ⟨children, focussedChild, false, [[]]⟩
    | some press =>
      ⟨children.set i press.widget, if press.focus then some i else focussedChild, press.focus,
        [] :: press.calls.map (i :: ·)⟩

mutual

def Widget.OnMouseDown : Widget → Int → Int → UInt8 → Press
  | .widget f, _, _, _ => ⟨.widget f, f.Focussable, [[]]⟩
  | .composite f focussed cs, x, y, button =>
    let r := CompositeWidget.OnMouseDown f focussed cs
      (downAll cs (x - f.x) (y - f.y) button) x y
    ⟨.composite f r.focussedChild r.children, r.focus, r.calls⟩
  | .window f _ focussed cs, x, y, button =>
    let r := CompositeWidget.OnMouseDown f focussed cs
      (downAll cs (x - f.x) (y - f.y) button) x y
    ⟨.window f (button == 1) r.focussedChild r.children, r.focus, r.calls⟩

/-- What the call into each of the children would return. -/
def downAll : List Widget → Int → Int → UInt8 → List Press
  | [], _, _, _ => []
  | c :: cs, x, y, button => c.OnMouseDown x y button :: downAll cs x y button

end

/-! ## §4. A button goes up. -/

/-- The children after a call into the `i`-th of them. -/
def called (children after : List Widget) : Option Nat → List Widget
  | none => children
  | some i =>
    match after[i]? with
    | none => children
    | some c => children.set i c

/-- `CompositeWidget::OnMouseUp`. -/
def CompositeWidget.OnMouseUp (f : Fields) (children ups : List Widget) (x y : Int) : List Widget :=
  called children ups (firstchild children (x - f.x) (y - f.y))

mutual

def Widget.OnMouseUp : Widget → Int → Int → UInt8 → Widget
  | .widget f, _, _, _ => .widget f
  | .composite f focussed cs, x, y, button =>
    .composite f focussed
      (CompositeWidget.OnMouseUp f cs (upAll cs (x - f.x) (y - f.y) button) x y)
  | .window f _ focussed cs, x, y, button =>
    .window f false focussed
      (CompositeWidget.OnMouseUp f cs (upAll cs (x - f.x) (y - f.y) button) x y)

def upAll : List Widget → Int → Int → UInt8 → List Widget
  | [], _, _, _ => []
  | c :: cs, x, y, button => c.OnMouseUp x y button :: upAll cs x y button

end

/-! ## §5. The mouse moves. -/

/-- `CompositeWidget::OnMouseMove`: the child under the old point first, then the one that is under
    the new point by now, unless it is the same. -/
def CompositeWidget.OnMouseMove (f : Fields) (children moves : List Widget)
    (oldx oldy newx newy : Int) : List Widget :=
  let first := firstchild children (oldx - f.x) (oldy - f.y)
  let children := called children moves first
  let second := firstchild children (newx - f.x) (newy - f.y)
  if first = second then children else called children moves second

/-- The fields of a window that is being dragged. -/
def Fields.shift (f : Fields) (dx dy : Int) : Fields := { f with x := f.x + dx, y := f.y + dy }

mutual

def Widget.OnMouseMove : Widget → Int → Int → Int → Int → Widget
  | .widget f, _, _, _, _ => .widget f
  | .composite f focussed cs, oldx, oldy, newx, newy =>
    .composite f focussed (CompositeWidget.OnMouseMove f cs
      (moveAll cs (oldx - f.x) (oldy - f.y) (newx - f.x) (newy - f.y)) oldx oldy newx newy)
  | .window f dragging focussed cs, oldx, oldy, newx, newy =>
    let f := if dragging then f.shift (newx - oldx) (newy - oldy) else f
    .window f dragging focussed (CompositeWidget.OnMouseMove f cs
      (moveAll cs (oldx - f.x) (oldy - f.y) (newx - f.x) (newy - f.y)) oldx oldy newx newy)

def moveAll : List Widget → Int → Int → Int → Int → List Widget
  | [], _, _, _, _ => []
  | c :: cs, oldx, oldy, newx, newy =>
    c.OnMouseMove oldx oldy newx newy :: moveAll cs oldx oldy newx newy

end

/-! ## §6. A key. -/

/-- A call with a key: the widget that it is made to and the character. -/
abbrev KeyCall := Path × UInt8

/-- `CompositeWidget::OnKeyDown` and `OnKeyUp`, which pass the key on to the focussed child, with the
    calls that each of the children would make. -/
def CompositeWidget.passKey (focussedChild : Option Nat) (keys : List (List KeyCall))
    (str : UInt8) : List KeyCall :=
  match focussedChild with
  | none => [([], str)]
  | some i =>
    match keys[i]? with
    | none => [([], str)]
    | some calls => ([], str) :: calls.map fun call => (i :: call.1, call.2)

mutual

/-- The widgets whose handler of a key is invoked, outermost first; that of a `Widget` is
    `KeyboardEventHandler`'s, which does nothing. -/
def Widget.passKey : Widget → UInt8 → List KeyCall
  | .widget _, str => [([], str)]
  | .composite _ focussed cs, str => CompositeWidget.passKey focussed (passKeyAll cs str) str
  | .window _ _ focussed cs, str => CompositeWidget.passKey focussed (passKeyAll cs str) str

def passKeyAll : List Widget → UInt8 → List (List KeyCall)
  | [], _ => []
  | c :: cs, str => c.passKey str :: passKeyAll cs str

end

def Widget.OnKeyDown (v : Widget) (str : UInt8) : List KeyCall := v.passKey str

def Widget.OnKeyUp (v : Widget) (str : UInt8) : List KeyCall := v.passKey str

/-! ## §7. The desktop. -/

/-- The root: a composite at (0, 0) without a parent, and the mouse. -/
structure Desktop where
  w : Int
  h : Int
  r : UInt8
  g : UInt8
  b : UInt8
  focussedChild : Option Nat
  children : List Widget
  MouseX : Int
  MouseY : Int

namespace Desktop

def fields (d : Desktop) : Fields := ⟨0, 0, d.w, d.h, d.r, d.g, d.b, true⟩

/-- The widget at a path from the desktop. -/
def sub (d : Desktop) : Path → Option Widget
  | [] => none
  | i :: p => d.children[i]?.bind (·.sub p)

/-- The calls of `FillRectangle` and the pixels of the mouse cursor on top of them. -/
def Draw (d : Desktop) : List Fill × List (Int × Int) :=
  (drawSelf d.fields [] :: drawChildren d.children [d.fields] 0,
    (List.range 4).flatMap fun i =>
      [(d.MouseX - i, d.MouseY), (d.MouseX + i, d.MouseY), (d.MouseX, d.MouseY - i),
        (d.MouseX, d.MouseY + i)])

/-- `Desktop::OnMouseDown`, with the widgets whose `OnMouseDown` was invoked. -/
def OnMouseDown (d : Desktop) (button : UInt8) : Desktop × List Path :=
  let r := CompositeWidget.OnMouseDown d.fields d.focussedChild d.children
    (downAll d.children (d.MouseX - d.fields.x) (d.MouseY - d.fields.y) button) d.MouseX d.MouseY
  ({ d with children := r.children, focussedChild := r.focussedChild }, r.calls)

def OnMouseUp (d : Desktop) (button : UInt8) : Desktop :=
  { d with
    children := CompositeWidget.OnMouseUp d.fields d.children
      (upAll d.children (d.MouseX - d.fields.x) (d.MouseY - d.fields.y) button) d.MouseX d.MouseY }

/-- One coordinate of the mouse after a move, kept inside the desktop. -/
def clampMouse (mouse offset size : Int) : Int :=
  let new := mouse + offset.tdiv 4
  let new := if new < 0 then 0 else new
  if new ≥ size then size - 1 else new

def OnMouseMove (d : Desktop) (x y : Int) : Desktop :=
  let newMouseX := clampMouse d.MouseX x d.w
  let newMouseY := clampMouse d.MouseY y d.h
  { d with
    children := CompositeWidget.OnMouseMove d.fields d.children
      (moveAll d.children (d.MouseX - d.fields.x) (d.MouseY - d.fields.y) (newMouseX - d.fields.x)
        (newMouseY - d.fields.y)) d.MouseX d.MouseY newMouseX newMouseY
    MouseX := newMouseX
    MouseY := newMouseY }

end Desktop

end SystemOS.Gui.Widgets
