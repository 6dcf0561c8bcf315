/-
  SystemOS.Gui.Dragging — which windows a drag moves.

  A press marks the windows on the way to the pointer and a release clears the mark on the way to
  the pointer; the two ways are the same only while the pointer stays on the marked windows.  A
  release that goes to another window leaves the mark, and the window follows the mouse afterwards.

  Main results:
    * `ByPointer.sub`, `move_sub` — what one event does to the widget at a path.
    * `dragging_iff_grabbed` — while releases find the windows that the press marked, the windows
      that are dragged are those.
    * `drag_ends_with_release` — the law of a drag over every such run.
    * `release_missed` — a run in which another window takes the release.
-/
import SystemOS.Gui.Widgets
import SystemOS.Lib.Transition

namespace SystemOS.Gui.Dragging

open SystemOS.Lib.Transition SystemOS.Gui.Widgets

/-! ## §1. The way to the pointer. -/

/-- The point is in the widget at the path, and at each step down no earlier child holds it. -/
def Reaches : List Widget → Int → Int → Path → Bool
  | _, _, _, [] => true
  | children, x, y, i :: p =>
    firstchild children x y == some i
      && children[i]?.any fun c => Reaches c.children (x - c.fields.x) (y - c.fields.y) p

theorem reaches_cons (children : List Widget) (x y : Int) (i : Nat) (p : Path) :
    Reaches children x y (i :: p) = true ↔ firstchild children x y = some i
      ∧ ∃ c, children[i]? = some c
        ∧ Reaches c.children (x - c.fields.x) (y - c.fields.y) p = true := by
  rw [Reaches, Bool.and_eq_true, beq_iff_eq, Option.any_eq_true]

theorem downAll_eq_map (children : List Widget) (x y : Int) (b : UInt8) :
    downAll children x y b = children.map (·.OnMouseDown x y b) := by
  induction children with
  | nil => rfl
  | cons c cs ih => rw [downAll, List.map_cons, ih]

theorem upAll_eq_map (children : List Widget) (x y : Int) (b : UInt8) :
    upAll children x y b = children.map (·.OnMouseUp x y b) := by
  induction children with
  | nil => rfl
  | cons c cs ih => rw [upAll, List.map_cons, ih]

theorem moveAll_eq_map (children : List Widget) (oldx oldy newx newy : Int) :
    moveAll children oldx oldy newx newy
      = children.map (·.OnMouseMove oldx oldy newx newy) := by
  induction children with
  | nil => rfl
  | cons c cs ih => rw [moveAll, List.map_cons, ih]

theorem called_length (children after : List Widget) (k : Option Nat) :
    (called children after k).length = children.length := by
  unfold called
  cases k with
  | none => rfl
  | some k =>
    dsimp only
    cases after[k]? with
    | none => rfl
    | some c => exact List.length_set

/-- A call into one child leaves the others. -/
theorem called_getElem? (children after : List Widget) (hlen : after.length = children.length)
    (k : Option Nat) (i : Nat) :
    (called children after k)[i]? = if k = some i then after[i]? else children[i]? := by
  unfold called
  cases k with
  | none => rfl
  | some k =>
    dsimp only
    by_cases hk : k = i
    · subst hk
      rw [if_pos rfl]
      -- There is no such child before the call if there is none after it.
      cases hc : after[k]? with
      | none =>
        rw [List.getElem?_eq_none_iff] at hc
        exact List.getElem?_eq_none_iff.mpr (hlen ▸ hc)
      | some c =>
        have hlt := (List.getElem?_eq_some_iff.mp hc).1
        exact List.getElem?_set_self (hlen ▸ hlt)
    · have hne : ¬ some k = some i := fun h => hk (Option.some.inj h)
      rw [if_neg hne]
      cases after[k]? with
      | none => rfl
      | some c => exact List.getElem?_set_ne hk

/-! ## §2. The widget at a path after an event. -/

theorem sub_cons (v : Widget) (i : Nat) (p : Path) :
    v.sub (i :: p) = v.children[i]?.bind (·.sub p) := rfl

/-- An event that each container hands to the first child under the pointer. -/
def ByPointer (op : Widget → Int → Int → Widget) : Prop :=
  ∀ v x y (i : Nat), (op v x y).children[i]?
    = if firstchild v.children (x - v.fields.x) (y - v.fields.y) = some i then
        v.children[i]?.map (op · (x - v.fields.x) (y - v.fields.y))
      else v.children[i]?

/-- Such an event is handled by the widgets on the way to the pointer, and by no other. -/
theorem ByPointer.sub {op : Widget → Int → Int → Widget} (hop : ByPointer op) (v : Widget)
    (x y : Int) (p : Path) : ∃ x' y', (op v x y).sub p
      = if Reaches v.children (x - v.fields.x) (y - v.fields.y) p then (v.sub p).map (op · x' y')
        else v.sub p := by
  induction p generalizing v x y with
  -- The coordinates are those of the container at each step down, so they are found, not given.
  | nil => exact ⟨x, y, rfl⟩
  | cons i p ih =>
    rw [sub_cons, sub_cons, hop v x y i, Reaches]
    by_cases hi : firstchild v.children (x - v.fields.x) (y - v.fields.y) = some i
    · rw [if_pos hi, hi, beq_self_eq_true, Bool.true_and]
      cases v.children[i]? with
      | none => exact ⟨x, y, (ite_self _).symm⟩
      | some c => exact ih c (x - v.fields.x) (y - v.fields.y)
    · rw [if_neg hi, beq_eq_false_iff_ne.mpr hi, Bool.false_and]
      exact ⟨x, y, rfl⟩

/-- `OnMouseUp` goes by the pointer. -/
theorem up_byPointer (b : UInt8) : ByPointer (·.OnMouseUp · · b) := by
  have h : ∀ (f : Fields) (cs : List Widget) (x y : Int) (i : Nat),
      (CompositeWidget.OnMouseUp f cs (upAll cs (x - f.x) (y - f.y) b) x y)[i]?
        = if firstchild cs (x - f.x) (y - f.y) = some i then
            cs[i]?.map (·.OnMouseUp (x - f.x) (y - f.y) b)
          else cs[i]? := by
    intro f cs x y i
    rw [upAll_eq_map, ← List.getElem?_map]
    exact called_getElem? cs _ (List.length_map _) _ i
  intro v x y i
  cases v with
  | widget f => exact (ite_self _).symm
  | composite f focussed cs => exact h f cs x y i
  | window f dragging focussed cs => exact h f cs x y i

/-- What a press leaves of the children. -/
theorem pressed_children (f : Fields) (focussed : Option Nat) (cs : List Widget)
    (presses : List Press) (x y : Int) :
    (CompositeWidget.OnMouseDown f focussed cs presses x y).children
      = called cs (presses.map Press.widget) (firstchild cs (x - f.x) (y - f.y)) := by
  unfold CompositeWidget.OnMouseDown called
  cases firstchild cs (x - f.x) (y - f.y) with
  | none => rfl
  | some k =>
    dsimp only
    rw [List.getElem?_map]
    cases presses[k]? <;> rfl

/-- `OnMouseDown` goes by the pointer. -/
theorem down_byPointer (b : UInt8) : ByPointer fun v x y => (v.OnMouseDown x y b).widget := by
  have h : ∀ (f : Fields) (focussed : Option Nat) (cs : List Widget) (x y : Int) (i : Nat),
      (CompositeWidget.OnMouseDown f focussed cs (downAll cs (x - f.x) (y - f.y) b) x
          y).children[i]?
        = if firstchild cs (x - f.x) (y - f.y) = some i then
            cs[i]?.map fun c => (c.OnMouseDown (x - f.x) (y - f.y) b).widget
          else cs[i]? := by
    intro f focussed cs x y i
    rw [pressed_children, downAll_eq_map, List.map_map, ← List.getElem?_map]
    exact called_getElem? cs _ (List.length_map _) _ i
  intro v x y i
  cases v with
  | widget f => exact (ite_self _).symm
  | composite f focussed cs => exact h f focussed cs x y i
  | window f dragging focussed cs => exact h f focussed cs x y i

/-- A move is handed to a child at most once. -/
theorem moved_child (f : Fields) (cs moves : List Widget) (hlen : moves.length = cs.length)
    (oldx oldy newx newy : Int) (i : Nat) :
    (CompositeWidget.OnMouseMove f cs moves oldx oldy newx newy)[i]? = cs[i]?
      ∨ (CompositeWidget.OnMouseMove f cs moves oldx oldy newx newy)[i]? = moves[i]? := by
  have hcalled : ∀ (cs' : List Widget) (k : Option Nat), moves.length = cs'.length →
      (called cs' moves k)[i]? = cs'[i]? ∨ (called cs' moves k)[i]? = moves[i]? := by
    intro cs' k hlen'
    rw [called_getElem? cs' moves hlen' k i]
    by_cases hk : k = some i
    · exact .inr (if_pos hk)
    · exact .inl (if_neg hk)
  -- The second loop looks among the children that the first one has left.
  unfold CompositeWidget.OnMouseMove
  have hfirst := hcalled cs (firstchild cs (oldx - f.x) (oldy - f.y)) hlen
  generalize firstchild cs (oldx - f.x) (oldy - f.y) = first at hfirst
  have hlen' := hlen.trans (called_length cs moves first).symm
  -- `if(firstchild != i)`: the second loop calls no child a second time.
  by_cases hsame : first = firstchild (called cs moves first) (newx - f.x) (newy - f.y)
  · rw [if_pos hsame]
    exact hfirst
  · rw [if_neg hsame]
    rcases hcalled _ (firstchild (called cs moves first) (newx - f.x) (newy - f.y)) hlen' with h | h
    · rw [h]
      exact hfirst
    · exact .inr h

theorem move_children (v : Widget) (oldx oldy newx newy : Int) (i : Nat) :
    (v.OnMouseMove oldx oldy newx newy).children[i]? = v.children[i]?
      ∨ ∃ oldx' oldy' newx' newy', (v.OnMouseMove oldx oldy newx newy).children[i]?
        = v.children[i]?.map (·.OnMouseMove oldx' oldy' newx' newy') := by
  have h : ∀ (f : Fields) (cs : List Widget),
      (CompositeWidget.OnMouseMove f cs (moveAll cs (oldx - f.x) (oldy - f.y) (newx - f.x)
        (newy - f.y)) oldx oldy newx newy)[i]? = cs[i]?
      ∨ ∃ oldx' oldy' newx' newy', (CompositeWidget.OnMouseMove f cs (moveAll cs (oldx - f.x)
          (oldy - f.y) (newx - f.x) (newy - f.y)) oldx oldy newx newy)[i]?
        = cs[i]?.map (·.OnMouseMove oldx' oldy' newx' newy') := by
    intro f cs
    rw [moveAll_eq_map]
    rcases moved_child f cs _ (List.length_map _) oldx oldy newx newy i with h | h
    · exact .inl h
    · exact .inr ⟨_, _, _, _, h.trans List.getElem?_map⟩
  cases v with
  | widget f => exact .inl rfl
  | composite f focussed cs => exact h f cs
  | window f dragging focussed cs => exact h _ cs

/-- A move is handled by the widget at a path or it leaves it. -/
theorem move_sub (v : Widget) (oldx oldy newx newy : Int) (p : Path) :
    (v.OnMouseMove oldx oldy newx newy).sub p = v.sub p
      ∨ ∃ oldx' oldy' newx' newy', (v.OnMouseMove oldx oldy newx newy).sub p
        = (v.sub p).map (·.OnMouseMove oldx' oldy' newx' newy') := by
  induction p generalizing v oldx oldy newx newy with
  | nil => exact .inr ⟨oldx, oldy, newx, newy, rfl⟩
  | cons i p ih =>
    rw [sub_cons, sub_cons]
    rcases move_children v oldx oldy newx newy i with h | ⟨_, _, _, _, h⟩
    · exact .inl (congrArg (·.bind (·.sub p)) h)
    · rw [h]
      cases v.children[i]? with
      | none => exact .inl rfl
      | some c => exact ih c _ _ _ _

/-! ## §3. What one event does to a widget it is handed to. -/

/-- The position of a widget in its container. -/
def position (v : Widget) : Int × Int := (v.fields.x, v.fields.y)

theorem up_dragging (v : Widget) (x y : Int) (b : UInt8) :
    (v.OnMouseUp x y b).dragging = false := by
  cases v <;> rfl

theorem up_position (v : Widget) (x y : Int) (b : UInt8) :
    position (v.OnMouseUp x y b) = position v := by
  cases v <;> rfl

theorem down_dragging (v : Widget) (x y : Int) (b : UInt8) :
    (v.OnMouseDown x y b).widget.dragging = (v.isWindow && b == 1) := by
  cases v <;> rfl

theorem down_position (v : Widget) (x y : Int) (b : UInt8) :
    position (v.OnMouseDown x y b).widget = position v := by
  cases v <;> rfl

theorem move_dragging (v : Widget) (oldx oldy newx newy : Int) :
    (v.OnMouseMove oldx oldy newx newy).dragging = v.dragging := by
  cases v <;> rfl

/-- Only a window that is dragged follows the mouse. -/
theorem move_position (v : Widget) (oldx oldy newx newy : Int) (h : v.dragging = false) :
    position (v.OnMouseMove oldx oldy newx newy) = position v := by
  cases v with
  | widget f => rfl
  | composite f focussed cs => rfl
  | window f dragging focussed cs =>
    change dragging = false at h
    rw [h]
    rfl

/-- The calls of a container are its own and those of the child it hands the press to. -/
theorem mem_container_calls (f : Fields) (focussed : Option Nat) (cs : List Widget)
    (presses : List Press) (x y : Int) (i : Nat) (p : Path) :
    i :: p ∈ (CompositeWidget.OnMouseDown f focussed cs presses x y).calls
      ↔ firstchild cs (x - f.x) (y - f.y) = some i
        ∧ ∃ press, presses[i]? = some press ∧ p ∈ press.calls := by
  unfold CompositeWidget.OnMouseDown
  cases firstchild cs (x - f.x) (y - f.y) with
  | none => simp
  | some k =>
    dsimp only
    cases hpress : presses[k]? with
    -- The child handed the press is at an index of `presses`.
    | none =>
      simp only [List.mem_singleton, reduceCtorEq, Option.some.injEq, false_iff, not_and]
      rintro rfl ⟨press, hsome, _⟩
      rw [hpress] at hsome
      cases hsome
    | some press =>
      simp only [List.mem_cons, reduceCtorEq, List.mem_map, List.cons.injEq, false_or,
        Option.some.injEq]
      constructor
      · rintro ⟨q, hq, rfl, rfl⟩
        exact ⟨rfl, press, hpress, hq⟩
      · rintro ⟨rfl, press', hpress', hq⟩
        rw [hpress] at hpress'
        cases hpress'
        exact ⟨p, hq, rfl, rfl⟩

/-- A press is delivered to the widgets on the way to the pointer. -/
theorem mem_calls (p : Path) (v : Widget) (x y : Int) (b : UInt8) :
    p ∈ (v.OnMouseDown x y b).calls
      ↔ Reaches v.children (x - v.fields.x) (y - v.fields.y) p = true := by
  induction p generalizing v x y with
  | nil =>
    -- The container itself is called in any case.
    have h : ∀ (f : Fields) (focussed : Option Nat) (cs : List Widget) (presses : List Press),
        [] ∈ (CompositeWidget.OnMouseDown f focussed cs presses x y).calls := by
      intro f focussed cs presses
      unfold CompositeWidget.OnMouseDown
      cases firstchild cs (x - f.x) (y - f.y) with
      | none => exact List.mem_cons_self
      | some k =>
        dsimp only
        cases presses[k]? <;> exact List.mem_cons_self
    refine iff_of_true ?_ rfl
    cases v with
    | widget f => exact List.mem_cons_self
    | composite f focussed cs => exact h f focussed cs _
    | window f dragging focussed cs => exact h f focussed cs _
  | cons i p ih =>
    have h : ∀ (f : Fields) (focussed : Option Nat) (cs : List Widget),
        i :: p ∈ (CompositeWidget.OnMouseDown f focussed cs
            (downAll cs (x - f.x) (y - f.y) b) x y).calls
          ↔ Reaches cs (x - f.x) (y - f.y) (i :: p) = true := by
      intro f focussed cs
      rw [mem_container_calls, reaches_cons, downAll_eq_map, List.getElem?_map]
      refine and_congr_right fun _ => ?_
      cases cs[i]? with
      | none => simp
      | some c => simp [ih]
    cases v with
    | widget f => simp [Widget.OnMouseDown, Reaches, Widget.children, firstchild]
    | composite f focussed cs => exact h f focussed cs
    | window f dragging focussed cs => exact h f focussed cs

/-- Whether the widget at a path is a window that is dragged. -/
def dragged (v : Widget) (p : Path) : Bool := (v.sub p).any (·.dragging)

/-! ## §4. The desktop and the mouse. -/

/-- The desktop is a composite without a parent. -/
def root (d : Desktop) : Widget := .composite d.fields d.focussedChild d.children

theorem root_down (d : Desktop) (b : UInt8) :
    root (d.OnMouseDown b).1 = ((root d).OnMouseDown d.MouseX d.MouseY b).widget := by
  unfold root
  rw [Widget.OnMouseDown]
  rfl

theorem root_up (d : Desktop) (b : UInt8) :
    root (d.OnMouseUp b) = (root d).OnMouseUp d.MouseX d.MouseY b := by
  unfold root
  rw [Widget.OnMouseUp]
  rfl

theorem root_move (d : Desktop) (x y : Int) : root (d.OnMouseMove x y)
    = (root d).OnMouseMove d.MouseX d.MouseY (d.OnMouseMove x y).MouseX
        (d.OnMouseMove x y).MouseY := by
  unfold root
  rw [Widget.OnMouseMove]
  rfl

inductive Event
  | press (button : UInt8)
  | release (button : UInt8)
  | move (x y : Int)

/-- The desktop, whether a button is down, and the windows that the press that put it down was
delivered to, if it was a press of button 1. -/
structure State where
  desktop : Desktop
  down : Bool
  grabbed : List Path

/-- The windows that a press of a button is delivered to, if it is button 1. -/
def grabs (d : Desktop) (b : UInt8) : List Path :=
  (d.OnMouseDown b).2.filter fun p => ((root d).sub p).any (·.isWindow) && b == 1

inductive Step : State → Event → State → Prop
  | press {s : State} {b : UInt8} : s.down = false →
    Step s (.press b) ⟨(s.desktop.OnMouseDown b).1, true, grabs s.desktop b⟩
  | release {s : State} {b : UInt8} : s.down = true →
    Step s (.release b) ⟨s.desktop.OnMouseUp b, false, []⟩
  | move {s : State} {x y : Int} : Step s (.move x y) ⟨s.desktop.OnMouseMove x y, s.down, s.grabbed⟩

/-- Presses and releases alternate, on a desktop on which no window is dragged at first. -/
def system : System State Event where
  init s := s.down = false ∧ s.grabbed = [] ∧ ∀ p, dragged (root s.desktop) p = false
  step := Step

/-- The windows grabbed are still under the pointer when the button goes up. -/
def Held (s : State) : Event → Prop
  | .release _ => ∀ p ∈ s.grabbed, Reaches s.desktop.children s.desktop.MouseX s.desktop.MouseY p
  | _ => True

/-! ## §5. Dragged means grabbed. -/

theorem reaches_root (d : Desktop) (p : Path) :
    Reaches (root d).children (d.MouseX - (root d).fields.x) (d.MouseY - (root d).fields.y) p
      = Reaches d.children d.MouseX d.MouseY p := by
  show Reaches d.children (d.MouseX - 0) (d.MouseY - 0) p = _
  rw [Int.sub_zero, Int.sub_zero]

/-- A release clears the windows on the way to the pointer. -/
theorem dragged_up (d : Desktop) (b : UInt8) (p : Path) : dragged (root (d.OnMouseUp b)) p
    = (dragged (root d) p && !Reaches d.children d.MouseX d.MouseY p) := by
  rw [root_up]
  obtain ⟨x', y', h⟩ := (up_byPointer b).sub (root d) d.MouseX d.MouseY p
  unfold dragged
  rw [h, reaches_root]
  cases Reaches d.children d.MouseX d.MouseY p with
  | false => rw [if_neg Bool.false_ne_true, Bool.not_false, Bool.and_true]
  | true =>
    rw [if_pos rfl, Bool.not_true, Bool.and_false]
    cases (root d).sub p with
    | none => rfl
    | some v => exact up_dragging v x' y' b

/-- A press sets the flags on the way to the pointer. -/
theorem dragged_down (d : Desktop) (b : UInt8) (p : Path) : dragged (root (d.OnMouseDown b).1) p
    = if Reaches d.children d.MouseX d.MouseY p then ((root d).sub p).any (·.isWindow) && b == 1
      else dragged (root d) p := by
  rw [root_down]
  obtain ⟨x', y', h⟩ := (down_byPointer b).sub (root d) d.MouseX d.MouseY p
  unfold dragged
  rw [h, reaches_root]
  by_cases hreach : Reaches d.children d.MouseX d.MouseY p = true
  · rw [if_pos hreach, if_pos hreach]
    cases (root d).sub p with
    | none => rfl
    | some v => exact down_dragging v x' y' b
  · rw [if_neg hreach, if_neg hreach]

theorem dragged_move (d : Desktop) (x y : Int) (p : Path) :
    dragged (root (d.OnMouseMove x y)) p = dragged (root d) p := by
  rw [root_move]
  unfold dragged
  rcases move_sub (root d) d.MouseX d.MouseY _ _ p with h | ⟨_, _, _, _, h⟩
  · rw [h]
  · rw [h]
    cases (root d).sub p with
    | none => rfl
    | some v => exact move_dragging v _ _ _ _

/-- The windows that a press of button 1 is delivered to. -/
theorem mem_grabs (d : Desktop) (b : UInt8) (p : Path) : p ∈ grabs d b
    ↔ Reaches d.children d.MouseX d.MouseY p = true
      ∧ (((root d).sub p).any (·.isWindow) && b == 1) = true := by
  unfold grabs
  rw [List.mem_filter, ← reaches_root]
  exact and_congr_left fun _ => mem_calls p (root d) d.MouseX d.MouseY b

/-- The windows that are dragged are those grabbed, and none is while no button is down. -/
structure Drag (s : State) : Prop where
  dragged : ∀ p, dragged (root s.desktop) p = true ↔ p ∈ s.grabbed
  up : s.down = false → s.grabbed = []

theorem Drag.none (s : State) (h : Drag s) (hup : s.down = false) (p : Path) :
    Dragging.dragged (root s.desktop) p = false := by
  have hempty := h.dragged p
  rw [h.up hup] at hempty
  exact Bool.eq_false_iff.mpr fun hp => absurd (hempty.mp hp) List.not_mem_nil

theorem drag_init (s : State) (h : system.init s) : Drag s := by
  obtain ⟨_, hgrabbed, hnone⟩ := h
  refine ⟨fun p => ?_, fun _ => hgrabbed⟩
  rw [hgrabbed]
  exact iff_of_false (Bool.eq_false_iff.mp (hnone p)) List.not_mem_nil

/-- A release leaves no window dragged if and only if it finds all that were grabbed. -/
theorem release_iff_held (s : State) (h : Drag s) (b : UInt8) :
    (∀ p, dragged (root (s.desktop.OnMouseUp b)) p = false) ↔ Held s (.release b) := by
  constructor
  · intro hnone p hp
    have hup := hnone p
    rw [dragged_up, (h.dragged p).mpr hp, Bool.true_and, Bool.not_eq_false'] at hup
    exact hup
  · intro hheld p
    rw [dragged_up]
    cases hp : dragged (root s.desktop) p with
    | false => rfl
    | true => rw [hheld p ((h.dragged p).mp hp)]; rfl

theorem drag_step (s : State) (e : Event) (s' : State) (h : Drag s)
    (hstep : (system.restrict Held).step s e s') : Drag s' := by
  obtain ⟨hheld, hstep⟩ := hstep
  cases hstep with
  | press hup =>
    rename_i b
    -- No window is dragged before the press, so that the flags left are those it sets.
    refine ⟨fun p => ?_, fun hdown => absurd hdown.symm Bool.false_ne_true⟩
    show dragged (root (s.desktop.OnMouseDown b).1) p = true ↔ p ∈ grabs s.desktop b
    rw [dragged_down, mem_grabs, h.none s hup p]
    cases Reaches s.desktop.children s.desktop.MouseX s.desktop.MouseY p with
    | false => simp only [Bool.false_eq_true, if_false, false_and]
    | true => simp only [if_true, true_and]
  | release hdown =>
    rename_i b
    -- This is where the release has to find the windows.
    refine ⟨fun p => ?_, fun _ => rfl⟩
    show dragged (root (s.desktop.OnMouseUp b)) p = true ↔ p ∈ []
    rw [(release_iff_held s h b).mpr hheld p]
    exact iff_of_false Bool.false_ne_true List.not_mem_nil
  | move =>
    rename_i x y
    refine ⟨fun p => ?_, h.up⟩
    show dragged (root (s.desktop.OnMouseMove x y)) p = true ↔ p ∈ s.grabbed
    rw [dragged_move]
    exact h.dragged p

/-- In every state of a run whose releases find the windows grabbed. -/
theorem dragging_iff_grabbed {s : State} (h : (system.restrict Held).Reachable s) : Drag s :=
  System.Reachable.invariant (S := system.restrict Held) drag_init drag_step h

/-! ## §6. Positions. -/

/-- Where the widget at a path lies in its container. -/
def positionAt (d : Desktop) (p : Path) : Option (Int × Int) := ((root d).sub p).map position

/-- An event that leaves the widget it is handed to in its place leaves every widget there. -/
theorem ByPointer.position {op : Widget → Int → Int → Widget} (hop : ByPointer op)
    (hplace : ∀ v x y, position (op v x y) = position v) (v : Widget) (x y : Int) (p : Path) :
    ((op v x y).sub p).map Dragging.position = (v.sub p).map Dragging.position := by
  obtain ⟨x', y', h⟩ := hop.sub v x y p
  rw [h, apply_ite (Option.map Dragging.position), Option.map_map]
  refine (ite_congr rfl (fun _ => ?_) fun _ => rfl).trans (ite_self _)
  cases v.sub p with
  | none => rfl
  | some w => exact congrArg some (hplace w x' y')

theorem positionAt_up (d : Desktop) (b : UInt8) (p : Path) :
    positionAt (d.OnMouseUp b) p = positionAt d p := by
  unfold positionAt
  rw [root_up]
  exact (up_byPointer b).position (fun v x y => up_position v x y b) (root d) _ _ p

theorem positionAt_down (d : Desktop) (b : UInt8) (p : Path) :
    positionAt (d.OnMouseDown b).1 p = positionAt d p := by
  unfold positionAt
  rw [root_down]
  exact (down_byPointer b).position (fun v x y => down_position v x y b) (root d) _ _ p

/-- A move shifts only what is dragged. -/
theorem positionAt_move (d : Desktop) (x y : Int) (p : Path) (h : dragged (root d) p = false) :
    positionAt (d.OnMouseMove x y) p = positionAt d p := by
  unfold positionAt
  rw [root_move]
  rcases move_sub (root d) d.MouseX d.MouseY _ _ p with hsub | ⟨_, _, _, _, hsub⟩
  · rw [hsub]
  · rw [hsub]
    unfold dragged at h
    cases hv : (root d).sub p with
    | none => rfl
    | some v =>
      rw [hv] at h
      exact congrArg some (move_position v _ _ _ _ h)

/-- **The law of a drag.**  In every run whose releases find the windows grabbed, no window is
dragged while no button is down, a step that changes a position is a move and the widget a window
grabbed by the press before it; and a release leaves a window dragged exactly when it misses one. -/
theorem drag_ends_with_release {s : State} (h : (system.restrict Held).Reachable s) :
    (s.down = false → ∀ p, dragged (root s.desktop) p = false)
      ∧ (∀ e s', system.step s e s' → ∀ p, positionAt s'.desktop p ≠ positionAt s.desktop p →
          (∃ x y, e = .move x y) ∧ p ∈ s.grabbed)
      ∧ ∀ b s', system.step s (.release b) s' →
          ((∀ p, dragged (root s'.desktop) p = false) ↔ Held s (.release b)) := by
  have hdrag := dragging_iff_grabbed h
  refine ⟨hdrag.none s, ?_, ?_⟩
  · intro e s' hstep p hp
    cases hstep with
    | press hup => exact absurd (positionAt_down s.desktop _ p) hp
    | release hdown => exact absurd (positionAt_up s.desktop _ p) hp
    | move =>
      refine ⟨⟨_, _, rfl⟩, (hdrag.dragged p).mp ?_⟩
      by_contra hnot
      exact hp (positionAt_move s.desktop _ _ p (Bool.eq_false_iff.mpr hnot))
  · intro b s' hstep
    cases hstep with
    | release hdown => exact release_iff_held s hdrag b

/-- Two windows side by side that overlap, the mouse on the second of them. -/
def overlapping : Desktop :=
  ⟨320, 200, 0, 0, 0, none, [.window ⟨140, 95, 18, 20, 1, 1, 1, true⟩ false none [],
    .window ⟨155, 95, 20, 20, 2, 2, 2, true⟩ false none []], 160, 100⟩

theorem overlapping_init : system.init ⟨overlapping, false, []⟩ := by
  refine ⟨rfl, rfl, fun p => ?_⟩
  rcases p with _ | ⟨_ | _ | i, p⟩
  · rfl
  · cases p <;> rfl
  · cases p <;> rfl
  · rfl

/-- Button 1 goes down on the second window, the mouse takes it along, and the button goes up. -/
theorem drag_ends_with_release_overlapping : ∃ s s', (system.restrict Held).Reachable s
    ∧ s.grabbed = [[1]] ∧ positionAt s.desktop [1] = some (160, 98)
    ∧ system.step s (.release 1) s' ∧ ∀ p, dragged (root s'.desktop) p = false := by
  have hstart : (system.restrict Held).Reachable ⟨overlapping, false, []⟩ := .start overlapping_init
  have hpress : (system.restrict Held).Reachable
      ⟨(overlapping.OnMouseDown 1).1, true, grabs overlapping 1⟩ :=
    hstart.next (e := .press 1) ⟨trivial, .press rfl⟩
  have hmove : (system.restrict Held).Reachable
      ⟨(overlapping.OnMouseDown 1).1.OnMouseMove 20 12, true, grabs overlapping 1⟩ :=
    hpress.next (e := .move 20 12) ⟨trivial, .move⟩
  have hrelease : Step ⟨(overlapping.OnMouseDown 1).1.OnMouseMove 20 12, true, grabs overlapping 1⟩
      (.release 1) _ := .release rfl
  have hgrabs : grabs overlapping 1 = [[1]] := by decide +kernel
  refine ⟨_, _, hmove, hgrabs, by decide +kernel, hrelease, ?_⟩
  refine ((drag_ends_with_release hmove).2.2 1 _ hrelease).mpr fun p hp => ?_
  rw [hgrabs, List.mem_singleton] at hp
  rw [hp]
  decide +kernel

/-- Button 1 goes down on the second window, the mouse takes it below the first one and the button
goes up there: the second window follows the mouse from then on. -/
theorem release_missed : ∃ s s', system.Reachable s ∧ s.down = false
    ∧ dragged (root s.desktop) [1] = true ∧ system.step s (.move 48 0) s'
    ∧ positionAt s.desktop [1] = some (145, 95) ∧ positionAt s'.desktop [1] = some (157, 95) := by
  refine ⟨_, _, ((((System.Reachable.start overlapping_init).next (.press (b := 1) rfl)).next
    (.move (x := -40) (y := 0))).next (.release (b := 1) rfl)), rfl, ?_, .move, ?_, ?_⟩
  · decide +kernel
  · decide +kernel
  · decide +kernel

end SystemOS.Gui.Dragging
