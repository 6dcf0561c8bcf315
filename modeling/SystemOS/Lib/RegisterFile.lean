/-
  SystemOS.Lib.RegisterFile — registers that are written one after the other.

  A register file is a function; a program writes it by a list of pairs of a register and a value.

  Key results:
    * `writeAll_of_mem` — a register holds its value when every write of it writes that value.
    * `writeAll_of_ne`  — the registers that are not written stay.
-/
import Mathlib.Logic.Function.Basic

namespace SystemOS.Lib.RegisterFile

universe u v

variable {α : Type u} {β : Type v} [DecidableEq α] {f : α → β} {ws vs : List (α × β)} {a : α} {b : β}

/-- The writes of a list, in its order. -/
def writeAll (f : α → β) (ws : List (α × β)) : α → β :=
  ws.foldl (fun f w => Function.update f w.1 w.2) f

@[simp] theorem writeAll_nil : writeAll f [] = f := rfl

theorem writeAll_cons (w : α × β) :
    writeAll f (w :: ws) = writeAll (Function.update f w.1 w.2) ws := rfl

theorem writeAll_append : writeAll f (ws ++ vs) = writeAll (writeAll f ws) vs :=
  List.foldl_append

theorem writeAll_of_ne (h : ∀ w ∈ ws, w.1 ≠ a) : writeAll f ws a = f a := by
  induction ws generalizing f with
  | nil => rfl
  | cons w ws ih =>
    rw [writeAll_cons, ih fun w' hw' => h w' (List.mem_cons_of_mem w hw')]
    exact Function.update_of_ne (Ne.symm (h w List.mem_cons_self)) _ _

/-- **A register that is written holds the value** that its writes agree on. -/
theorem writeAll_of_mem (h : (a, b) ∈ ws) (hagree : ∀ w ∈ ws, w.1 = a → w.2 = b) :
    writeAll f ws a = b := by
  induction ws generalizing f with
  | nil => cases h
  | cons w ws ih =>
    have hrest : ∀ w' ∈ ws, w'.1 = a → w'.2 = b :=
      fun w' hw' => hagree w' (List.mem_cons_of_mem w hw')
    rw [writeAll_cons]
    by_cases hmem : (a, b) ∈ ws
    · exact ih hmem hrest
    · -- this write is the last one of the register
      obtain rfl : (a, b) = w := (List.mem_cons.mp h).resolve_right hmem
      have hne : ∀ w' ∈ ws, w'.1 ≠ a := by
        rintro ⟨a', b'⟩ hw' rfl
        have hb : b' = b := hrest _ hw' rfl
        exact hmem (hb ▸ hw')
      rw [writeAll_of_ne hne, Function.update_self]

end SystemOS.Lib.RegisterFile
