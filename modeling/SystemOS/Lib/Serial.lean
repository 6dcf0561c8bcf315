/-
  SystemOS.Lib.Serial — serial executions of requests on a shared object.

  A request `i` executed alone takes the object from one state to the next and gives an answer;
  `outcome` executes a list of requests one after the other and keeps the answers.
-/
import Mathlib.Data.List.Basic

namespace SystemOS.Lib.Serial

universe u v w

variable {ι : Type u} {σ : Type v} {ρ : Type w} (exec : ι → σ → σ × ρ)

/-- The final state and the answers of a serial execution. -/
def outcome : List ι → σ → σ × List (ι × ρ)
  | [], s => (s, [])
  | i :: is, s => ((outcome is (exec i s).1).1, (i, (exec i s).2) :: (outcome is (exec i s).1).2)

variable {exec}

/-- One more request at the end. -/
theorem outcome_concat : ∀ (is : List ι) (i : ι) (s : σ),
    outcome exec (is ++ [i]) s = ((exec i (outcome exec is s).1).1,
      (outcome exec is s).2 ++ [(i, (exec i (outcome exec is s).1).2)])
  | [], _, _ => rfl
  | j :: is, i, s => by
      simp only [List.cons_append, outcome]
      rw [outcome_concat is i]

/-- Only the requests of the list are answered. -/
theorem mem_of_answered {is : List ι} {s : σ} {i : ι} {r : ρ}
    (h : (i, r) ∈ (outcome exec is s).2) : i ∈ is := by
  induction is generalizing s with
  | nil => exact absurd h List.not_mem_nil
  | cons j is ih =>
    rcases List.mem_cons.mp h with heq | htail
    · rw [(Prod.mk.inj heq).1]
      exact List.mem_cons_self
    · exact List.mem_cons_of_mem j (ih htail)

end SystemOS.Lib.Serial
