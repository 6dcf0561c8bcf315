/-
  SystemOS.Lib.WaitGraph — cycles in a relation that grows by the edges of one vertex.

  A wait-for relation gets more edges when somebody blocks and loses edges when somebody is
  released.  Losing edges makes no cycle; new edges from one source make one exactly when a target
  of theirs already reached the source, and an edge to a vertex without edges makes none.

  Key results:
    * `Acyclic.insert`  — new edges whose targets do not reach their source close no cycle.
    * `Acyclic.of_ends` — nor do edges to vertices that have none.
    * `cycle_of_insert` — a new edge whose target reaches its source does.
-/
import Mathlib.Logic.Relation

namespace SystemOS.Lib.WaitGraph

open Relation

variable {α : Type*} {r r' : α → α → Prop} {a b : α} {T : α → Prop}

/-- Nobody is on a closed walk. -/
def Acyclic (r : α → α → Prop) : Prop := ∀ i, ¬ TransGen r i i

theorem Acyclic.mono (h : Acyclic r) (hsub : ∀ i j, r' i j → r i j) : Acyclic r' :=
  fun i hi => h i (TransGen.mono hsub i i hi)

/-- A walk with edges from `a` to `T` added is one without them, or passes one. -/
theorem walk_insert (hsub : ∀ i j, r' i j → r i j ∨ i = a ∧ T j) {i j : α}
    (h : TransGen r' i j) :
    TransGen r i j ∨ ReflTransGen r i a ∧ ∃ b, T b ∧ ReflTransGen r b j := by
  induction h with
  | single hij =>
    rcases hsub _ _ hij with hij | ⟨rfl, hT⟩
    · exact .inl (.single hij)
    · exact .inr ⟨.refl, _, hT, .refl⟩
  | tail _ hjk ih =>
    rcases hsub _ _ hjk with hjk | ⟨rfl, hT⟩
    · rcases ih with hwalk | ⟨hfirst, b, hb, hlast⟩
      · exact .inl (hwalk.tail hjk)
      · exact .inr ⟨hfirst, b, hb, hlast.tail hjk⟩
    · -- the walk ends with a new edge
      rcases ih with hwalk | ⟨hfirst, _⟩
      · exact .inr ⟨hwalk.to_reflTransGen, _, hT, .refl⟩
      · exact .inr ⟨hfirst, _, hT, .refl⟩

/-- **New edges whose targets do not reach their source close no cycle.** -/
theorem Acyclic.insert (h : Acyclic r) (hfree : ∀ b, T b → ¬ ReflTransGen r b a)
    (hsub : ∀ i j, r' i j → r i j ∨ i = a ∧ T j) : Acyclic r' := by
  intro i hi
  rcases walk_insert hsub hi with hwalk | ⟨hfirst, b, hb, hlast⟩
  · exact h i hwalk
  · exact hfree b hb (hlast.trans hfirst)

/-- A walk to `a` need not leave `a` on its way. -/
theorem walk_to (hkeep : ∀ i j, i ≠ a → r i j → r' i j) {i : α} (h : ReflTransGen r i a) :
    ReflTransGen r' i a := by
  induction h using ReflTransGen.head_induction_on with
  | refl => exact .refl
  | @head i j hij _ ih =>
    by_cases hi : i = a
    · rw [hi]
    · exact .head (hkeep i j hi hij) ih

/-- **A new edge whose target reaches its source closes a cycle**, also when it replaces the other
    edges from its source. -/
theorem cycle_of_insert (hreach : ReflTransGen r b a) (hnew : r' a b)
    (hkeep : ∀ i j, i ≠ a → r i j → r' i j) : TransGen r' a a :=
  .head' hnew (walk_to hkeep hreach)

/-- On a walk that ends where an edge starts, every edge ends where an edge starts. -/
theorem walk_continues {i : α} (h : TransGen r i a) (hout : ∃ b, r a b) :
    TransGen (fun x y => r x y ∧ ∃ z, r y z) i a := by
  induction h using TransGen.head_induction_on with
  | single hia => exact .single ⟨hia, hout⟩
  | head hij hrest ih =>
    obtain ⟨z, hz, _⟩ := TransGen.head'_iff.mp hrest
    exact .head ⟨hij, z, hz⟩ ih

/-- **New edges to vertices without edges close no cycle.** -/
theorem Acyclic.of_ends (h : Acyclic r) (hsub : ∀ i j, r' i j → r i j ∨ ∀ l, ¬ r' j l) :
    Acyclic r' := by
  intro i hi
  obtain ⟨b, hib, _⟩ := TransGen.head'_iff.mp hi
  refine h i (TransGen.mono (fun x y hxy => ?_) i i (walk_continues hi ⟨b, hib⟩))
  obtain ⟨hxy, z, hyz⟩ := hxy
  exact (hsub x y hxy).resolve_right fun hend => hend z hyz

end SystemOS.Lib.WaitGraph
