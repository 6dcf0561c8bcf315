/-
  SystemOS.Lib.Painting — operations on a memory that write one value.

  `Paints c f S`: whatever the memory holds, `f` leaves the value `c` at the places of `S` and what
  was there before everywhere else.

  Key results:
    * `Paints.comp`   — one operation after another paints the union.
    * `Paints.iff_eq` — where an operation paints is determined.
-/
import Mathlib.Data.Set.Basic
import Mathlib.Logic.Function.Basic
import Mathlib.Logic.Nontrivial.Basic

namespace SystemOS.Lib.Painting

variable {α β : Type} {c : β} {f g : (α → β) → α → β} {S T : Set α}

/-- `f` writes `c` at the places of `S`, and nothing else. -/
structure Paints (c : β) (f : (α → β) → α → β) (S : Set α) : Prop where
  painted : ∀ mem, ∀ a ∈ S, f mem a = c
  others : ∀ mem, ∀ a ∉ S, f mem a = mem a

theorem Paints.refl (c : β) : Paints c (fun mem : α → β => mem) ∅ :=
  ⟨fun _ _ h => absurd h (Set.notMem_empty _), fun _ _ _ => rfl⟩

/-- One write. -/
theorem Paints.update [DecidableEq α] (c : β) (a : α) :
    Paints c (fun mem => Function.update mem a c) {a} := by
  refine ⟨fun mem b hb => ?_, fun mem b hb => Function.update_of_ne hb c mem⟩
  obtain rfl : b = a := hb
  exact Function.update_self b c mem

/-- **One operation after another** paints the union. -/
theorem Paints.comp (hf : Paints c f S) (hg : Paints c g T) :
    Paints c (fun mem => g (f mem)) (S ∪ T) := by
  refine ⟨fun mem a ha => ?_, fun mem a ha => ?_⟩
  · by_cases hT : a ∈ T
    · exact hg.painted _ a hT
    · rw [hg.others _ a hT]
      exact hf.painted mem a (ha.resolve_right hT)
  · have hboth := not_or.mp ha
    rw [hg.others _ a hboth.2, hf.others mem a hboth.1]

theorem Paints.congr (hf : Paints c f S) (h : ∀ a, a ∈ S ↔ a ∈ T) : Paints c f T :=
  Set.ext h ▸ hf

/-- **Where an operation paints is determined**, if there are two values. -/
theorem Paints.iff_eq [Nontrivial β] (hf : Paints c f S) : Paints c f T ↔ S = T := by
  constructor
  · intro hT
    -- a memory without `c` tells the two apart
    obtain ⟨d, hd⟩ := exists_ne c
    ext a
    by_cases hS : a ∈ S
    · refine iff_of_true hS (by_contra fun hnot => hd ?_)
      rw [← hf.painted (fun _ => d) a hS, hT.others _ a hnot]
    · refine iff_of_false hS fun hin => hd ?_
      rw [← hT.painted (fun _ => d) a hin, hf.others _ a hS]
  · intro h
    exact h ▸ hf

end SystemOS.Lib.Painting
