/-
  SystemOS.Gui.Focus — where the keys go after a press.

  A focussable object of class `Widget` that is pressed calls `GetFocus`, which climbs the parent
  pointers and makes each container point to the child that it was reached from; a key follows these
  pointers down.  The pointers of other subtrees stay as they were.  A container is focussable too,
  but its `OnMouseDown` never calls `GetFocus`, not even where it has no children.

  Main results:
    * `pressed_eq`  — the flag that `OnMouseDown` of the model returns is the climb of `GetFocus`.
    * `Leads`       — the pointers lead down to a leaf; mouse events keep that.
    * `keys_reach_leaf_iff` — every key goes to the leaf that was pressed last if it is of class
      `Widget`, and otherwise only if the keys went there before.
    * `window_unreached`    — the desktop with the two windows of `kernelMain`.
-/
import SystemOS.Gui.Dragging
import SystemOS.Gui.HitTest

namespace SystemOS.Gui.Focus

open SystemOS.Gui.Widgets SystemOS.Gui.Dragging SystemOS.Gui.HitTest

/-! ## §1. Parent pointers. -/

/-- The widget with other children. -/
def withChildren : Widget → List Widget → Widget
  | .widget f, _ => .widget f
  | .composite f focussed _, cs => .composite f focussed cs
  | .window f dragging focussed _, cs => .window f dragging focussed cs

/-- `this->focussedChild = widget`, for the child `i`. -/
def focusOn (i : Nat) : Widget → Widget
  | .widget f => .widget f
  | .composite f _ cs => .composite f (some i) cs
  | .window f dragging _ cs => .window f dragging (some i) cs

/-- `this->Dragging = dragging`. -/
def setDragging (dragging : Bool) : Widget → Widget
  | .window f _ focussed cs => .window f dragging focussed cs
  | v => v

/-- A tree in which the widget at a path has changed. -/
def update (g : Widget → Widget) : Path → Widget → Widget
  | [], v => g v
  | i :: p, v => withChildren v (v.children.modify i (update g p))

/-- `GetFocus(this)` of a widget in the tree `root`, reached from its parent as the first of these
    children, from the parent's parent as the second, and so on. -/
def GetFocus (root : Widget) : List Nat → Widget
  | [] => root
  | i :: parents => GetFocus (update (focusOn i) parents.reverse root) parents

/-- The loop of `CompositeWidget::OnMouseDown`, with the calls into the children. -/
def pressedChild (f : Fields) (cs : List Widget) (presses : List (Widget → Widget)) (x y : Int)
    (root : Widget) : Widget :=
  match firstchild cs (x - f.x) (y - f.y) with
  | none => root
  | some i => presses[i]?.getD id root

mutual

/-- `OnMouseDown` of a widget below these parents, as a change of the tree `root`. -/
def pressed : Widget → List Nat → Int → Int → UInt8 → Widget → Widget
  | .widget f, parents, _, _, _, root => if f.Focussable then GetFocus root parents else root
  | .composite f _ cs, parents, x, y, button, root =>
    pressedChild f cs (pressedAll cs 0 parents (x - f.x) (y - f.y) button) x y root
  | .window f _ _ cs, parents, x, y, button, root =>
    pressedChild f cs (pressedAll cs 0 parents (x - f.x) (y - f.y) button) x y
      (update (setDragging (button == 1)) parents.reverse root)

/-- The calls into the children, the first of which has index `i`. -/
def pressedAll : List Widget → Nat → List Nat → Int → Int → UInt8 → List (Widget → Widget)
  | [], _, _, _, _, _ => []
  | c :: cs, i, parents, x, y, button =>
    pressed c (i :: parents) x y button :: pressedAll cs (i + 1) parents x y button

end

theorem pressedAll_getElem? (cs : List Widget) (k : Nat) (parents : List Nat) (x y : Int)
    (b : UInt8) (i : Nat) : (pressedAll cs k parents x y b)[i]?
      = cs[i]?.map fun c => pressed c ((k + i) :: parents) x y b := by
  induction cs generalizing k i with
  | nil => rfl
  | cons c cs ih =>
    rw [pressedAll]
    cases i with
    | zero => rfl
    | succ i =>
      rw [List.getElem?_cons_succ, List.getElem?_cons_succ, ih, Nat.add_right_comm, Nat.add_assoc]

/-- A change below a path is a change of the child there. -/
theorem update_append (g : Widget → Widget) (p q : Path) (root : Widget) :
    update g (p ++ q) root = update (update g q) p root := by
  induction p generalizing root with
  | nil => rfl
  | cons i p ih =>
    rw [List.cons_append, update, update]
    exact congrArg (fun h => withChildren root (root.children.modify i h)) (funext ih)

theorem update_update (g h : Widget → Widget) (p : Path) (root : Widget) :
    update h p (update g p root) = update (fun v => h (g v)) p root := by
  induction p generalizing root with
  | nil => rfl
  | cons i p ih =>
    have hmodify : ∀ cs : List Widget, (cs.modify i (update g p)).modify i (update h p)
        = cs.modify i (update (fun v => h (g v)) p) := by
      intro cs
      rw [List.modify_modify_eq]
      exact congrArg (cs.modify i) (funext ih)
    cases root with
    | widget f => rfl
    | composite f focussed cs => exact congrArg (Widget.composite f focussed) (hmodify cs)
    | window f dragging focussed cs =>
      exact congrArg (Widget.window f dragging focussed) (hmodify cs)

/-- A change of the child that is there. -/
theorem modify_child {cs : List Widget} {i : Nat} {c : Widget} (hc : cs[i]? = some c)
    (g : Widget → Widget) : cs.modify i g = cs.set i (g c) := by
  rw [List.modify_eq_set_getElem?, hc]
  rfl

/-- A path leads through a child. -/
theorem exists_child {v w : Widget} {i : Nat} {p : Path} (h : v.sub (i :: p) = some w) :
    ∃ c, v.children[i]? = some c ∧ c.sub p = some w := Option.bind_eq_some_iff.mp h

/-- Only what a change makes of the widget at the path counts. -/
theorem update_congr {g h : Widget → Widget} {p : Path} {root v : Widget}
    (hv : root.sub p = some v) (heq : g v = h v) : update g p root = update h p root := by
  induction p generalizing root with
  | nil =>
    obtain rfl : root = v := Option.some.inj hv
    exact heq
  | cons i p ih =>
    obtain ⟨c, hc, hsub⟩ := exists_child hv
    rw [update, update, modify_child hc, modify_child hc, ih hsub]

theorem update_id {g : Widget → Widget} {p : Path} {root v : Widget} (hv : root.sub p = some v)
    (heq : g v = v) : update g p root = root := by
  induction p generalizing root with
  | nil =>
    obtain rfl : root = v := Option.some.inj hv
    exact heq
  | cons i p ih =>
    obtain ⟨c, hc, hsub⟩ := exists_child hv
    have hlt := (List.getElem?_eq_some_iff.mp hc).1
    have hset : root.children.set i c = root.children := by
      rw [← (List.getElem?_eq_some_iff.mp hc).2]
      exact List.set_getElem_self hlt
    rw [update, modify_child hc, ih hsub, hset]
    cases root <;> rfl

theorem sub_append (v : Widget) (p q : Path) : v.sub (p ++ q) = (v.sub p).bind (·.sub q) := by
  induction p generalizing v with
  | nil => rfl
  | cons i p ih =>
    rw [List.cons_append, sub_cons, sub_cons]
    cases v.children[i]? with
    | none => rfl
    | some c => exact ih c

/-- The widget that has changed. -/
theorem sub_update (g : Widget → Widget) {p : Path} {root v : Widget} (hv : root.sub p = some v) :
    (update g p root).sub p = some (g v) := by
  induction p generalizing root with
  | nil =>
    obtain rfl : root = v := Option.some.inj hv
    rfl
  | cons i p ih =>
    obtain ⟨c, hc, hsub⟩ := exists_child hv
    have hlt := (List.getElem?_eq_some_iff.mp hc).1
    have hchild : (withChildren root (root.children.set i (update g p c))).children[i]?
        = some (update g p c) := by
      cases root with
      | widget f => exact absurd hlt (Nat.not_lt_zero i)
      | composite f focussed cs => exact List.getElem?_set_self hlt
      | window f dragging focussed cs => exact List.getElem?_set_self hlt
    rw [update, modify_child hc, sub_cons, hchild]
    exact ih hsub

/-! ## §2. The climb. -/

/-- The child that a container points to. -/
def focussed : Widget → Option Nat
  | .widget _ => none
  | .composite _ focussed _ => focussed
  | .window _ _ focussed _ => focussed

/-- The container with another pointer and other children. -/
def withContents : Widget → Option Nat → List Widget → Widget
  | .widget f, _, _ => .widget f
  | .composite f _ _, focussed, cs => .composite f focussed cs
  | .window f dragging _ _, focussed, cs => .window f dragging focussed cs

/-- A press that reaches the widget leaves it as `press` says, and climbs on if it took the focus. -/
def climb (root : Widget) (parents : List Nat) (press : Press) : Widget :=
  let root := update (fun _ => press.widget) parents.reverse root
  if press.focus then GetFocus root parents else root

/-- One step of the climb is the step of the container. -/
theorem climb_child {root v c : Widget} {parents : List Nat} {i : Nat}
    (hv : root.sub parents.reverse = some v) (hc : v.children[i]? = some c) (press : Press)
    (calls : List Path) : climb root (i :: parents) press
      = climb root parents ⟨withContents v (if press.focus then some i else focussed v)
          (v.children.set i press.widget), press.focus, calls⟩ := by
  have hbelow : update (fun _ => press.widget) (parents.reverse ++ [i]) root
      = update (fun v => withChildren v (v.children.modify i fun _ => press.widget))
        parents.reverse root := update_append _ _ [i] root
  unfold climb
  rw [List.reverse_cons, hbelow]
  cases press.focus with
  | true =>
    simp only [if_true]
    rw [GetFocus, update_update]
    refine congrArg (GetFocus · parents) (update_congr hv ?_)
    rw [modify_child hc]
    cases v <;> rfl
  | false =>
    simp only [Bool.false_eq_true, if_false]
    refine update_congr hv ?_
    rw [modify_child hc]
    cases v <;> rfl

theorem firstchild_some {cs : List Widget} {x y : Int} {i : Nat} (h : firstchild cs x y = some i) :
    ∃ c, cs[i]? = some c := by
  obtain ⟨hlt, -⟩ := List.findIdx?_eq_some_iff_getElem.mp h
  exact ⟨cs[i], List.getElem?_eq_getElem hlt⟩

/-- **A press on a container** goes to no child or to the first one under the pointer. -/
theorem container_press (f : Fields) (focussed : Option Nat) (cs : List Widget) (x y : Int)
    (b : UInt8) :
    let r := CompositeWidget.OnMouseDown f focussed cs (downAll cs (x - f.x) (y - f.y) b) x y
    (firstchild cs (x - f.x) (y - f.y) = none ∧ r = ⟨cs, focussed, false, [[]]⟩)
      ∨ ∃ i c, firstchild cs (x - f.x) (y - f.y) = some i ∧ cs[i]? = some c
        ∧ let press := c.OnMouseDown (x - f.x) (y - f.y) b
          r = ⟨cs.set i press.widget, if press.focus then some i else focussed, press.focus,
            [] :: press.calls.map (i :: ·)⟩ := by
  intro r
  show (_ ∧ CompositeWidget.OnMouseDown f focussed cs _ x y = _) ∨ _
  rcases h : firstchild cs (x - f.x) (y - f.y) with _ | i
  · refine Or.inl ⟨rfl, ?_⟩
    unfold CompositeWidget.OnMouseDown
    rw [h]
  · obtain ⟨c, hc⟩ := firstchild_some h
    refine Or.inr ⟨i, c, rfl, hc, ?_⟩
    have hpress : (downAll cs (x - f.x) (y - f.y) b)[i]?
        = some (c.OnMouseDown (x - f.x) (y - f.y) b) := by
      rw [downAll_eq_map, List.getElem?_map, hc]
      rfl
    show CompositeWidget.OnMouseDown f focussed cs _ x y = _
    unfold CompositeWidget.OnMouseDown
    rw [h]
    simp only [hpress]

/-- The deepest call of a container is that of the child. -/
theorem last_below {c : Widget} {x y : Int} {b : UInt8} {i : Nat} {p : Path}
    (h : ([] :: (c.OnMouseDown x y b).calls.map (i :: ·)).getLast? = some p) :
    ∃ q, p = i :: q ∧ (c.OnMouseDown x y b).calls.getLast? = some q := by
  obtain ⟨q, hq⟩ := exists_lastCall c x y b
  rw [List.getLast?_cons, List.getLast?_map, hq] at h
  exact ⟨q, (Option.some.inj h).symm, hq⟩

/-- The loop over the children changes the tree as its container changes. -/
theorem pressedChild_eq {f : Fields} {root v : Widget} {parents : List Nat}
    (hv : root.sub parents.reverse = some v) {x y : Int} {b : UInt8} {p : Path}
    (hlast : (CompositeWidget.OnMouseDown f (focussed v) v.children
      (downAll v.children (x - f.x) (y - f.y) b) x y).calls.getLast? = some p)
    (ih : ∀ (q : Path) (i : Nat) (c : Widget), p = i :: q →
      root.sub (i :: parents).reverse = some c →
      (c.OnMouseDown (x - f.x) (y - f.y) b).calls.getLast? = some q →
        pressed c (i :: parents) (x - f.x) (y - f.y) b root
          = climb root (i :: parents) (c.OnMouseDown (x - f.x) (y - f.y) b)) :
    pressedChild f v.children (pressedAll v.children 0 parents (x - f.x) (y - f.y) b) x y root =
      let r := CompositeWidget.OnMouseDown f (focussed v) v.children
        (downAll v.children (x - f.x) (y - f.y) b) x y
      climb root parents ⟨withContents v r.focussedChild r.children, r.focus, r.calls⟩ := by
  have hsame : withContents v (focussed v) v.children = v := by cases v <;> rfl
  unfold pressedChild
  rcases container_press f (focussed v) v.children x y b with ⟨hnone, hr⟩ | ⟨i, c, hi, hc, hr⟩
  · rw [hnone, hr]
    exact (update_id hv hsame).symm
  · rw [hr] at hlast
    obtain ⟨q, rfl, hq⟩ := last_below hlast
    have hsub : root.sub (i :: parents).reverse = some c := by
      rw [List.reverse_cons, sub_append, hv]
      show v.children[i]?.bind (·.sub []) = some c
      rw [hc]
      rfl
    rw [hi, hr]
    simp only
    rw [pressedAll_getElem?, hc, Nat.zero_add]
    exact (ih q i c rfl hsub hq).trans (climb_child hv hc _ _)

/-- A change of the widget itself is lost when its press writes it. -/
theorem climb_update (g : Widget → Widget) (root : Widget) (parents : List Nat) (press : Press) :
    climb (update g parents.reverse root) parents press = climb root parents press := by
  unfold climb
  rw [update_update]

/-- **`OnMouseDown` takes the focus by climbing the parent pointers.** -/
theorem pressed_eq (p : Path) {root v : Widget} {parents : List Nat}
    (hv : root.sub parents.reverse = some v) {x y : Int} {b : UInt8}
    (hlast : (v.OnMouseDown x y b).calls.getLast? = some p) :
    pressed v parents x y b root = climb root parents (v.OnMouseDown x y b) := by
  -- the induction is on the length of the way to the deepest widget that is called
  have ih : ∀ (q : Path) (i : Nat) (c : Widget), p = i :: q → ∀ root : Widget,
      root.sub (i :: parents).reverse = some c → ∀ x y : Int,
      (c.OnMouseDown x y b).calls.getLast? = some q →
        pressed c (i :: parents) x y b root
          = climb root (i :: parents) (c.OnMouseDown x y b) :=
    fun q i c hp root hsub x y hq => pressed_eq q hsub hq
  cases v with
  | widget f =>
    rw [pressed, Widget.OnMouseDown]
    unfold climb
    rw [update_id hv rfl]
  | composite f focussed cs =>
    rw [Widget.OnMouseDown] at hlast
    rw [pressed, Widget.OnMouseDown]
    exact pressedChild_eq hv hlast fun q i c hp hsub hq => ih q i c hp root hsub _ _ hq
  | window f dragging focussed cs =>
    rw [Widget.OnMouseDown] at hlast
    rw [pressed, Widget.OnMouseDown]
    have hset := sub_update (setDragging (b == 1)) hv
    refine (pressedChild_eq hset hlast fun q i c hp hsub hq => ih q i c hp _ hsub _ _ hq).trans ?_
    exact climb_update (setDragging (b == 1)) root parents _
termination_by p.length
decreasing_by
  rw [hp]
  exact Nat.lt_succ_self _

/-- The press on the root. -/
theorem pressed_root (root : Widget) (x y : Int) (b : UInt8) :
    pressed root [] x y b root = (root.OnMouseDown x y b).widget := by
  obtain ⟨p, hp⟩ := exists_lastCall root x y b
  have hroot : root.sub ([] : List Nat).reverse = some root := rfl
  refine (pressed_eq p hroot hp).trans ?_
  unfold climb
  exact ite_self _

/-! ## §3. The way of a key. -/

/-- A widget without children: of class `Widget`, or an empty container. -/
def isLeaf (v : Widget) : Bool := v.children.isEmpty

/-- An object of class `Widget` itself: not a container. -/
def isWidget : Widget → Bool
  | .widget _ => true
  | _ => false

theorem isWidget_iff {v : Widget} : isWidget v = true ↔ ∃ f, v = .widget f := by
  cases v with
  | widget f => exact ⟨fun _ => ⟨f, rfl⟩, fun _ => rfl⟩
  | composite f focussed cs => exact ⟨nofun, nofun⟩
  | window f dragging focussed cs => exact ⟨nofun, nofun⟩

theorem isWidget_eq_false {v : Widget} (h : ∀ f, v ≠ .widget f) : isWidget v = false :=
  Bool.eq_false_iff.mpr fun hv => (isWidget_iff.mp hv).elim h

/-- The pointers to the focussed children lead down the path to a leaf. -/
def Leads : Path → Widget → Prop
  | [], v => isLeaf v = true
  | i :: p, v => focussed v = some i ∧ ∃ c, v.children[i]? = some c ∧ Leads p c

theorem passKeyAll_eq_map (cs : List Widget) (str : UInt8) :
    passKeyAll cs str = cs.map (·.passKey str) := by
  induction cs with
  | nil => rfl
  | cons c cs ih => rw [passKeyAll, List.map_cons, ih]

/-- A widget keeps the key unless it points to a child. -/
theorem passKey_self {v : Widget}
    (h : ∀ (i : Nat) (c : Widget), focussed v = some i → v.children[i]? ≠ some c) (str : UInt8) :
    v.passKey str = [([], str)] := by
  have hpass : ∀ (fc : Option Nat) (cs : List Widget),
      (∀ (i : Nat) (c : Widget), fc = some i → cs[i]? ≠ some c) →
        CompositeWidget.passKey fc (passKeyAll cs str) str = [([], str)] := by
    intro fc cs hnone
    unfold CompositeWidget.passKey
    cases fc with
    | none => rfl
    | some i =>
      have hi : cs[i]? = none := Option.eq_none_iff_forall_ne_some.mpr fun c => hnone i c rfl
      have hkeys : (passKeyAll cs str)[i]? = none := by
        rw [passKeyAll_eq_map, List.getElem?_map, hi]
        rfl
      simp only [hkeys]
  cases v with
  | widget f => rfl
  | composite f fc cs =>
    rw [Widget.passKey]
    exact hpass fc cs h
  | window f dragging fc cs =>
    rw [Widget.passKey]
    exact hpass fc cs h

/-- A container hands the key to the child it points to. -/
theorem passKey_child {v c : Widget} {i : Nat} (hi : focussed v = some i)
    (hc : v.children[i]? = some c) (str : UInt8) :
    v.passKey str = ([], str) :: (c.passKey str).map fun call => (i :: call.1, call.2) := by
  have hkeys : (passKeyAll v.children str)[i]? = some (c.passKey str) := by
    rw [passKeyAll_eq_map, List.getElem?_map, hc]
    rfl
  have hpass : CompositeWidget.passKey (focussed v) (passKeyAll v.children str) str
      = ([], str) :: (c.passKey str).map fun call => (i :: call.1, call.2) := by
    unfold CompositeWidget.passKey
    rw [hi]
    simp only [hkeys]
  cases v with
  | widget f => cases hi
  | composite f focussed cs =>
    rw [Widget.passKey]
    exact hpass
  | window f dragging focussed cs =>
    rw [Widget.passKey]
    exact hpass

/-- The calls of a key on its way down to the widget at `p`. -/
def wayTo (p : Path) (str : UInt8) : List KeyCall := p.inits.map (·, str)

theorem wayTo_cons (i : Nat) (p : Path) (str : UInt8) :
    wayTo (i :: p) str = ([], str) :: (wayTo p str).map fun call => (i :: call.1, call.2) := by
  unfold wayTo
  rw [List.inits, List.map_cons, List.map_map, List.map_map]
  rfl

/-- **A key follows the pointers** to the leaf, and stops there. -/
theorem passKey_eq {p : Path} {v : Widget} (h : Leads p v) (str : UInt8) :
    v.passKey str = wayTo p str := by
  induction p generalizing v with
  | nil =>
    refine passKey_self (fun i c _ hc => ?_) str
    rw [List.isEmpty_iff.mp h] at hc
    cases hc
  | cons i p ih =>
    obtain ⟨hi, c, hc, hlead⟩ := h
    rw [passKey_child hi hc, ih hlead, wayTo_cons]

theorem wayTo_head (p : Path) (str : UInt8) : ∃ calls, wayTo p str = ([], str) :: calls := by
  cases p with
  | nil => exact ⟨[], rfl⟩
  | cons i p => exact ⟨_, wayTo_cons i p str⟩

/-- The first call of a key is to the widget that gets it. -/
theorem passKey_head (v : Widget) (str : UInt8) : ∃ calls, v.passKey str = ([], str) :: calls := by
  by_cases h : ∃ i c, focussed v = some i ∧ v.children[i]? = some c
  · obtain ⟨i, c, hi, hc⟩ := h
    exact ⟨_, passKey_child hi hc str⟩
  · exact ⟨[], passKey_self (fun i c hi hc => h ⟨i, c, hi, hc⟩) str⟩

/-- A key gets to a leaf only along the pointers. -/
theorem leads_of_passKey {p : Path} {v leaf : Widget} (hsub : v.sub p = some leaf)
    (hleaf : isLeaf leaf = true) {str : UInt8} (hkey : v.passKey str = wayTo p str) :
    Leads p v := by
  induction p generalizing v with
  | nil =>
    obtain rfl : v = leaf := Option.some.inj hsub
    exact hleaf
  | cons i p ih =>
    obtain ⟨c, hc, hsub⟩ := exists_child hsub
    rw [wayTo_cons] at hkey
    by_cases h : ∃ j c', focussed v = some j ∧ v.children[j]? = some c'
    · obtain ⟨j, c', hj, hc'⟩ := h
      rw [passKey_child hj hc'] at hkey
      have hbelow := (List.cons.inj hkey).2
      -- the call of the child itself says which child it is
      obtain ⟨calls, hcalls⟩ := passKey_head c' str
      obtain ⟨rest, hrest⟩ := wayTo_head p str
      have hindex := hbelow
      rw [hcalls, hrest] at hindex
      obtain rfl : j = i :=
        (List.cons.inj (congrArg Prod.fst (List.cons.inj hindex).1)).1
      obtain rfl : c' = c := Option.some.inj (hc'.symm.trans hc)
      have hinjective : Function.Injective fun call : KeyCall => (j :: call.1, call.2) :=
        fun a b hab => Prod.ext (List.cons.inj (congrArg Prod.fst hab)).2
          (congrArg Prod.snd hab :)
      exact ⟨hj, c', hc, ih hsub (List.map_injective_iff.mpr hinjective hbelow)⟩
    · rw [passKey_self fun j c' hj hc' => h ⟨j, c', hj, hc'⟩] at hkey
      have hnil := (List.cons.inj hkey).2
      obtain ⟨rest, hrest⟩ := wayTo_head p str
      rw [hrest] at hnil
      cases hnil

/-! ## §4. A press. -/

/-- A press on a container: it takes the focus as the child does. -/
theorem press_child {v : Widget} {x y : Int} {b : UInt8} (hv : isWidget v = false) :
    ((v.OnMouseDown x y b).calls = [[]] ∧ (v.OnMouseDown x y b).focus = false
        ∧ focussed (v.OnMouseDown x y b).widget = focussed v
        ∧ (v.OnMouseDown x y b).widget.children = v.children)
      ∨ ∃ i c x' y', v.children[i]? = some c
        ∧ (v.OnMouseDown x y b).calls = [] :: (c.OnMouseDown x' y' b).calls.map (i :: ·)
        ∧ (v.OnMouseDown x y b).focus = (c.OnMouseDown x' y' b).focus
        ∧ focussed (v.OnMouseDown x y b).widget
          = (if (c.OnMouseDown x' y' b).focus then some i else focussed v)
        ∧ (v.OnMouseDown x y b).widget.children
          = v.children.set i (c.OnMouseDown x' y' b).widget := by
  cases v with
  | widget f => cases hv
  | composite f fc cs =>
    rw [Widget.OnMouseDown]
    rcases container_press f fc cs x y b with ⟨-, hr⟩ | ⟨i, c, -, hc, hr⟩
    · rw [hr]
      exact Or.inl ⟨rfl, rfl, rfl, rfl⟩
    · rw [hr]
      exact Or.inr ⟨i, c, _, _, hc, rfl, rfl, rfl, rfl⟩
  | window f dragging fc cs =>
    rw [Widget.OnMouseDown]
    rcases container_press f fc cs x y b with ⟨-, hr⟩ | ⟨i, c, -, hc, hr⟩
    · rw [hr]
      exact Or.inl ⟨rfl, rfl, rfl, rfl⟩
    · rw [hr]
      exact Or.inr ⟨i, c, _, _, hc, rfl, rfl, rfl, rfl⟩

theorem isEmpty_of_length {cs cs' : List Widget} (h : cs'.length = cs.length) :
    cs'.isEmpty = cs.isEmpty := by
  rw [Bool.eq_iff_iff, List.isEmpty_iff_length_eq_zero, List.isEmpty_iff_length_eq_zero, h]

theorem press_isEmpty (v : Widget) (x y : Int) (b : UInt8) :
    (v.OnMouseDown x y b).widget.children.isEmpty = v.children.isEmpty := by
  by_cases hwidget : isWidget v = true
  · obtain ⟨f, rfl⟩ := isWidget_iff.mp hwidget
    rfl
  · rcases press_child (x := x) (y := y) (b := b) (Bool.not_eq_true _ ▸ hwidget) with
      ⟨-, -, -, hchildren⟩ | ⟨i, c, x', y', -, -, -, -, hchildren⟩
    · rw [hchildren]
    · rw [hchildren, isEmpty_of_length List.length_set]

/-- The deepest widget whose `OnMouseDown` a press invokes: the press is delivered to it. -/
def target (v : Widget) (x y : Int) (b : UInt8) : Option Path :=
  (v.OnMouseDown x y b).calls.getLast?

/-- A press that is delivered to a focussable object of class `Widget` makes the pointers lead to
    it. -/
theorem press_leads {p : Path} {v : Widget} {x y : Int} {b : UInt8} {f : Fields}
    (htarget : target v x y b = some p) (hleaf : v.sub p = some (.widget f))
    (hf : f.Focussable = true) :
    (v.OnMouseDown x y b).focus = true ∧ Leads p (v.OnMouseDown x y b).widget := by
  induction p generalizing v x y with
  | nil =>
    obtain rfl : v = .widget f := Option.some.inj hleaf
    exact ⟨hf, rfl⟩
  | cons i p ih =>
    have hcontainer : isWidget v = false := isWidget_eq_false fun g hv => by
      subst hv
      cases hleaf
    unfold target at htarget
    rcases press_child (x := x) (y := y) (b := b) hcontainer with
      ⟨hcalls, -⟩ | ⟨j, c, x', y', hc, hcalls, hfocus, hpointer, hchildren⟩
    · rw [hcalls] at htarget
      cases htarget
    · rw [hcalls] at htarget
      obtain ⟨q, hq, hlast⟩ := last_below htarget
      obtain ⟨rfl, rfl⟩ := List.cons.inj hq
      rw [sub_cons, hc] at hleaf
      obtain ⟨hfocus', hlead⟩ := ih hlast hleaf
      have hlt := (List.getElem?_eq_some_iff.mp hc).1
      refine ⟨hfocus.trans hfocus', ?_, _, ?_, hlead⟩
      · rw [hpointer, if_pos hfocus']
      · rw [hchildren]
        exact List.getElem?_set_self hlt

/-- Only an object of class `Widget` takes the focus. -/
theorem widget_of_focus {p : Path} {v : Widget} {x y : Int} {b : UInt8}
    (htarget : target v x y b = some p) (hfocus : (v.OnMouseDown x y b).focus = true) :
    ∃ f, v.sub p = some (.widget f) := by
  induction p generalizing v x y with
  | nil =>
    by_contra hnone
    have hcontainer : isWidget v = false :=
      isWidget_eq_false fun f hv => hnone ⟨f, congrArg some hv⟩
    rcases press_child (x := x) (y := y) (b := b) hcontainer with
      ⟨-, hnone, -⟩ | ⟨j, c, x', y', -, hcalls, -⟩
    · rw [hnone] at hfocus
      cases hfocus
    · unfold target at htarget
      rw [hcalls] at htarget
      obtain ⟨q, hq, -⟩ := last_below htarget
      cases hq
  | cons i p ih =>
    unfold target at htarget
    have hcontainer : isWidget v = false := isWidget_eq_false fun g hv => by
      subst hv
      cases htarget
    rcases press_child (x := x) (y := y) (b := b) hcontainer with
      ⟨-, hnone, -⟩ | ⟨j, c, x', y', hc, hcalls, hchild, -⟩
    · rw [hnone] at hfocus
      cases hfocus
    · rw [hcalls] at htarget
      obtain ⟨q, hq, hlast⟩ := last_below htarget
      obtain ⟨rfl, rfl⟩ := List.cons.inj hq
      rw [sub_cons, hc]
      exact ih hlast (hchild ▸ hfocus)

/-! ## §5. The other events. -/

/-- A press that takes no focus leaves the pointers as they are. -/
theorem leads_press_iff {p : Path} {v : Widget} {x y : Int} {b : UInt8}
    (hfocus : (v.OnMouseDown x y b).focus = false) :
    Leads p (v.OnMouseDown x y b).widget ↔ Leads p v := by
  induction p generalizing v x y with
  | nil =>
    show (v.OnMouseDown x y b).widget.children.isEmpty = true ↔ v.children.isEmpty = true
    rw [press_isEmpty]
  | cons i p ih =>
    by_cases hwidget : isWidget v = true
    · obtain ⟨f, rfl⟩ := isWidget_iff.mp hwidget
      rfl
    unfold Leads
    rcases press_child (x := x) (y := y) (b := b) (Bool.not_eq_true _ ▸ hwidget) with
      ⟨-, -, hpointer, hchildren⟩ | ⟨j, c', x', y', hc', -, hchild, hpointer, hchildren⟩
    · rw [hpointer, hchildren]
    · have hnone := hchild.symm.trans hfocus
      rw [hnone, if_neg Bool.false_ne_true] at hpointer
      rw [hpointer, hchildren]
      refine and_congr_right fun _ => ?_
      by_cases hij : j = i
      · subst hij
        have hlt := (List.getElem?_eq_some_iff.mp hc').1
        constructor
        · rintro ⟨c, hc, hlead⟩
          rw [List.getElem?_set_self hlt] at hc
          obtain rfl := Option.some.inj hc
          exact ⟨c', hc', (ih hnone).mp hlead⟩
        · rintro ⟨c, hc, hlead⟩
          obtain rfl : c' = c := Option.some.inj (hc'.symm.trans hc)
          exact ⟨_, List.getElem?_set_self hlt, (ih hnone).mpr hlead⟩
      · rw [List.getElem?_set_ne hij]

/-- An event that leaves the pointers and the classes, and hands on to children only itself, leaves
    the way of the keys. -/
theorem Leads.of_children {R : Widget → Widget → Prop}
    (hleaf : ∀ v v', R v v' → isLeaf v' = isLeaf v)
    (hpointer : ∀ v v', R v v' → focussed v' = focussed v)
    (hchild : ∀ v v' : Widget, R v v' → ∀ (i : Nat) (c : Widget), v.children[i]? = some c →
      ∃ c', v'.children[i]? = some c' ∧ (c' = c ∨ R c c'))
    {p : Path} {v v' : Widget} (h : Leads p v) (hR : R v v') : Leads p v' := by
  induction p generalizing v v' with
  | nil => exact (hleaf v v' hR).trans h
  | cons i p ih =>
    obtain ⟨hi, c, hc, hlead⟩ := h
    obtain ⟨c', hc', hsame⟩ := hchild v v' hR i c hc
    refine ⟨(hpointer v v' hR).trans hi, c', hc', ?_⟩
    rcases hsame with rfl | hR'
    · exact hlead
    · exact ih hlead hR'

theorem Leads.release {p : Path} {v : Widget} (h : Leads p v) (x y : Int) (b : UInt8) :
    Leads p (v.OnMouseUp x y b) := by
  refine Leads.of_children (R := fun v v' => ∃ x y, v' = v.OnMouseUp x y b) ?_ ?_ ?_ h ⟨x, y, rfl⟩
  · rintro v _ ⟨x, y, rfl⟩
    cases v with
    | widget f => rfl
    | composite f fc cs => exact isEmpty_of_length (called_length cs _ _)
    | window f dragging fc cs => exact isEmpty_of_length (called_length cs _ _)
  · rintro v _ ⟨x, y, rfl⟩
    cases v <;> rfl
  · rintro v _ ⟨x, y, rfl⟩ i c hc
    have hchild := up_byPointer b v x y i
    simp only at hchild
    rw [hchild, hc]
    split
    · exact ⟨_, rfl, Or.inr ⟨_, _, rfl⟩⟩
    · exact ⟨c, rfl, Or.inl rfl⟩

theorem moved_length (f : Fields) (cs moves : List Widget) (oldx oldy newx newy : Int) :
    (CompositeWidget.OnMouseMove f cs moves oldx oldy newx newy).length = cs.length := by
  unfold CompositeWidget.OnMouseMove
  simp only
  split
  · exact called_length _ _ _
  · rw [called_length, called_length]

theorem Leads.move {p : Path} {v : Widget} (h : Leads p v) (oldx oldy newx newy : Int) :
    Leads p (v.OnMouseMove oldx oldy newx newy) := by
  refine Leads.of_children
    (R := fun v v' => ∃ oldx oldy newx newy, v' = v.OnMouseMove oldx oldy newx newy) ?_ ?_ ?_ h
    ⟨oldx, oldy, newx, newy, rfl⟩
  · rintro v _ ⟨oldx, oldy, newx, newy, rfl⟩
    cases v with
    | widget f => rfl
    | composite f fc cs => exact isEmpty_of_length (moved_length f cs _ oldx oldy newx newy)
    | window f dragging fc cs => exact isEmpty_of_length (moved_length _ cs _ oldx oldy newx newy)
  · rintro v _ ⟨oldx, oldy, newx, newy, rfl⟩
    cases v <;> rfl
  · rintro v _ ⟨oldx, oldy, newx, newy, rfl⟩ i c hc
    rcases move_children v oldx oldy newx newy i with hsame | ⟨oldx', oldy', newx', newy', hmoved⟩
    · exact ⟨c, hsame.trans hc, Or.inl rfl⟩
    · rw [hmoved, hc]
      exact ⟨_, rfl, Or.inr ⟨oldx', oldy', newx', newy', rfl⟩⟩

/-- What can happen to the tree: a key changes nothing. -/
inductive Input
  | down (x y : Int) (button : UInt8)
  | up (x y : Int) (button : UInt8)
  | move (oldx oldy newx newy : Int)
  | keyDown (str : UInt8)
  | keyUp (str : UInt8)

def handle (v : Widget) : Input → Widget
  | .down x y button => (v.OnMouseDown x y button).widget
  | .up x y button => v.OnMouseUp x y button
  | .move oldx oldy newx newy => v.OnMouseMove oldx oldy newx newy
  | .keyDown _ => v
  | .keyUp _ => v

/-- A press that is delivered to a leaf, focussable or not. -/
def PressesLeaf (v : Widget) : Input → Prop
  | .down x y button => ∃ p leaf, target v x y button = some p ∧ v.sub p = some leaf
      ∧ isLeaf leaf = true
  | _ => False

/-- No input of the run is a press that is delivered to a leaf. -/
def NoLeafPressed : Widget → List Input → Prop
  | _, [] => True
  | v, input :: inputs => ¬ PressesLeaf v input ∧ NoLeafPressed (handle v input) inputs

/-- One input keeps the way of the keys. -/
theorem Leads.handle {p : Path} {v : Widget} (h : Leads p v) {input : Input}
    (hinput : ¬ PressesLeaf v input) : Leads p (handle v input) := by
  cases input with
  | down x y button =>
    obtain ⟨q, hq⟩ := exists_lastCall v x y button
    refine (leads_press_iff (Bool.eq_false_iff.mpr fun hfocus => hinput ?_)).mpr h
    obtain ⟨f, hwidget⟩ := widget_of_focus hq hfocus
    exact ⟨q, .widget f, hq, hwidget, rfl⟩
  | up x y button => exact h.release x y button
  | move oldx oldy newx newy => exact h.move oldx oldy newx newy
  | keyDown str => exact h
  | keyUp str => exact h

theorem Leads.run {p : Path} {v : Widget} (h : Leads p v) {inputs : List Input}
    (hinputs : NoLeafPressed v inputs) : Leads p (inputs.foldl Focus.handle v) := by
  induction inputs generalizing v with
  | nil => exact h
  | cons input inputs ih => exact ih (h.handle hinputs.1) hinputs.2

/-- Until a press is delivered to a leaf, every key goes down to the widget at `p` and no further. -/
def KeysReach (p : Path) (v : Widget) : Prop :=
  ∀ inputs, NoLeafPressed v inputs → ∀ str,
    let v' := inputs.foldl handle v
    v'.OnKeyDown str = wayTo p str ∧ v'.OnKeyUp str = wayTo p str

theorem keysReach_iff {p : Path} {v leaf : Widget} (hsub : v.sub p = some leaf)
    (hleaf : isLeaf leaf = true) : KeysReach p v ↔ Leads p v := by
  constructor
  · intro h
    exact leads_of_passKey hsub hleaf (h [] trivial 0).1
  · intro h inputs hinputs str
    have hlead := h.run hinputs
    exact ⟨passKey_eq hlead str, passKey_eq hlead str⟩

/-- A press leaves an empty container an empty container. -/
theorem press_sub_leaf {p : Path} {v leaf : Widget} {x y : Int} {b : UInt8}
    (htarget : target v x y b = some p) (hsub : v.sub p = some leaf) (hleaf : isLeaf leaf = true) :
    ∃ leaf', (v.OnMouseDown x y b).widget.sub p = some leaf' ∧ isLeaf leaf' = true := by
  induction p generalizing v x y with
  | nil =>
    obtain rfl : v = leaf := Option.some.inj hsub
    exact ⟨_, rfl, (press_isEmpty v x y b).trans hleaf⟩
  | cons i p ih =>
    have hcontainer : isWidget v = false := isWidget_eq_false fun g hv => by
      subst hv
      cases hsub
    unfold target at htarget
    rcases press_child (x := x) (y := y) (b := b) hcontainer with
      ⟨hcalls, -⟩ | ⟨j, c, x', y', hc, hcalls, -, -, hchildren⟩
    · rw [hcalls] at htarget
      cases htarget
    · rw [hcalls] at htarget
      obtain ⟨q, hq, hlast⟩ := last_below htarget
      obtain ⟨rfl, rfl⟩ := List.cons.inj hq
      rw [sub_cons, hc] at hsub
      have hlt := (List.getElem?_eq_some_iff.mp hc).1
      rw [sub_cons, hchildren, List.getElem?_set_self hlt]
      exact ih hlast hsub

/-- **Where the keys go after a press** that is delivered to a focussable leaf, until another one is
    delivered to a leaf: all to that leaf, whatever the containers pointed to, if it is an object of
    class `Widget`.  An empty container takes no focus, and gets the keys only if it had it. -/
theorem keys_reach_leaf_iff {v leaf : Widget} {x y : Int} {button : UInt8} {p : Path}
    (htarget : target v x y button = some p) (hsub : v.sub p = some leaf)
    (hleaf : isLeaf leaf = true) (hf : leaf.fields.Focussable = true) :
    KeysReach p (v.OnMouseDown x y button).widget ↔ isWidget leaf = true ∨ Leads p v := by
  obtain ⟨leaf', hsub', hleaf'⟩ := press_sub_leaf htarget hsub hleaf
  rw [keysReach_iff hsub' hleaf']
  by_cases hwidget : isWidget leaf = true
  · obtain ⟨f, rfl⟩ := isWidget_iff.mp hwidget
    exact ⟨fun _ => Or.inl rfl, fun _ => (press_leads htarget hsub hf).2⟩
  · have hfocus : (v.OnMouseDown x y button).focus = false := by
      refine Bool.eq_false_iff.mpr fun hfocus => hwidget ?_
      obtain ⟨f, hwidget⟩ := widget_of_focus htarget hfocus
      obtain rfl : leaf = .widget f := Option.some.inj (hsub.symm.trans hwidget)
      rfl
    rw [leads_press_iff hfocus, or_iff_right hwidget]

/-- A window with two fields on a desktop with a third one, which has the focus. -/
def form : Widget :=
  .composite ⟨0, 0, 320, 200, 0, 0, 0, true⟩ (some 1)
    [.window ⟨10, 10, 100, 100, 1, 1, 1, true⟩ false none
      [.widget ⟨5, 5, 20, 10, 2, 2, 2, true⟩, .widget ⟨5, 25, 20, 10, 3, 3, 3, true⟩],
    .widget ⟨200, 20, 40, 40, 4, 4, 4, true⟩]

/-- The window is dragged and let go, a key comes, and the bare desktop is pressed. -/
def later : List Input := [.move 20 40 60 80, .up 60 80 1, .keyDown 65, .down 310 190 1]

theorem later_noLeaf : NoLeafPressed (form.OnMouseDown 20 40 1).widget later := by
  refine ⟨id, id, id, ?_, trivial⟩
  rintro ⟨p, leaf, htarget, hleaf, his⟩
  obtain rfl : p = [] := (Option.some.inj htarget).symm
  obtain rfl := Option.some.inj hleaf
  cases his

/-- The second field of the window gets the keys once it has been pressed. -/
theorem keys_reach_leaf_form :
    let v' := later.foldl handle (form.OnMouseDown 20 40 1).widget
    v'.OnKeyDown 66 = wayTo [0, 1] 66 ∧ v'.OnKeyUp 66 = wayTo [0, 1] 66 := by
  have htarget : target form 20 40 1 = some [0, 1] := by decide
  exact (keys_reach_leaf_iff htarget rfl rfl rfl).mpr (Or.inl rfl) later later_noLeaf 66

/-- The desktop with the two windows that `kernelMain` has for its graphics mode. -/
def twoWindows : Widget :=
  .composite ⟨0, 0, 320, 200, 0, 0, 0xA8, true⟩ none
    [.window ⟨10, 10, 20, 20, 0xA8, 0, 0, true⟩ false none [],
    .window ⟨40, 15, 30, 30, 0, 0xA8, 0, true⟩ false none []]

/-- A press on the first window is delivered to a focussable leaf, and the next key stops at the
    desktop. -/
theorem window_unreached :
    target twoWindows 15 15 1 = some [0]
      ∧ (twoWindows.sub [0]).any (fun leaf => isLeaf leaf && leaf.fields.Focussable) = true
      ∧ ((twoWindows.OnMouseDown 15 15 1).widget.OnKeyDown 65 = [([], 65)])
      ∧ ¬ KeysReach [0] (twoWindows.OnMouseDown 15 15 1).widget := by
  refine ⟨by decide, by decide, by decide, fun hkeys => ?_⟩
  have hstopped : (twoWindows.OnMouseDown 15 15 1).widget.OnKeyDown 65 ≠ wayTo [0] 65 := by decide
  exact hstopped (hkeys [] trivial 65).1

end SystemOS.Gui.Focus
