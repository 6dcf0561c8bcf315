/-
  SystemOS.Lib.Terminal — a sheet of text without a lower end, and the rows of it that a screen shows.

  What is typed is a symbol or a row break; a row is broken after `width` symbols as well.  A screen
  of `height` rows shows the last rows down to the one that is typed into.

  Key results:
    * `window_type`  — what a typed symbol or break does to the rows that are shown.
    * `Blank.type`   — the rows that have not been reached stay blank.
-/
import Mathlib.Tactic.Basic

namespace SystemOS.Lib.Terminal

/-! ## §1. The place of the next symbol. -/

structure Place where
  row : Nat
  column : Nat

variable {α : Type}

/-- What is typed at a place ends the row. -/
def Place.Breaks (width : Nat) (p : Place) (t : Option α) : Prop := t = none ∨ width ≤ p.column + 1

instance (width : Nat) (p : Place) : (t : Option α) → Decidable (p.Breaks width t)
  | none => isTrue (Or.inl rfl)
  | some _ => decidable_of_iff (width ≤ p.column + 1)
      ⟨Or.inr, fun h => h.resolve_left (by intro hnone; cases hnone)⟩

/-- Where the next symbol goes: `none` is a row break. -/
def Place.next (width : Nat) (p : Place) (t : Option α) : Place :=
  if p.Breaks width t then ⟨p.row + 1, 0⟩ else ⟨p.row, p.column + 1⟩

theorem next_of_breaks {width : Nat} {p : Place} {t : Option α} (h : p.Breaks width t) :
    p.next width t = ⟨p.row + 1, 0⟩ := if_pos h

theorem next_of_not_breaks {width : Nat} {p : Place} {t : Option α} (h : ¬ p.Breaks width t) :
    p.next width t = ⟨p.row, p.column + 1⟩ := if_neg h

/-- The first row that a screen shows. -/
def Place.top (height : Nat) (p : Place) : Nat := p.row + 1 - height

theorem row_le_next (width : Nat) (p : Place) (t : Option α) : p.row ≤ (p.next width t).row := by
  unfold Place.next
  split
  · exact Nat.le_succ p.row
  · exact Nat.le_refl p.row

/-! ## §2. The sheet. -/

structure Sheet (α : Type) where
  place : Place
  cell : Nat → Nat → α

/-- A symbol is written at the place, a row break writes nothing. -/
def Sheet.type (width : Nat) (s : Sheet α) (t : Option α) : Sheet α where
  place := s.place.next width t
  cell r c := if r = s.place.row ∧ c = s.place.column then t.getD (s.cell r c) else s.cell r c

/-- The rows that a screen shows. -/
def Sheet.window (height : Nat) (s : Sheet α) (r c : Nat) : α :=
  s.cell (s.place.top height + r) c

/-- The rows below the screen that have not been reached are blank. -/
def Sheet.Blank (height : Nat) (blank : α) (s : Sheet α) : Prop :=
  ∀ r c, height ≤ r → s.place.row < r → s.cell r c = blank

theorem cell_type_of_ne {width : Nat} {s : Sheet α} {t : Option α} {r c : Nat}
    (h : r ≠ s.place.row) : (s.type width t).cell r c = s.cell r c :=
  if_neg fun heq => h heq.1

theorem Sheet.Blank.type {height : Nat} {blank : α} {s : Sheet α} (h : s.Blank height blank)
    (width : Nat) (t : Option α) : (s.type width t).Blank height blank := by
  intro r c hr hrow
  have hbelow : s.place.row < r := Nat.lt_of_le_of_lt (row_le_next width s.place t) hrow
  rw [cell_type_of_ne (Nat.ne_of_gt hbelow)]
  exact h r c hr hbelow

/-- What the screen shows when the symbol has been written and the row not yet been broken. -/
def Sheet.written (height : Nat) (s : Sheet α) (t : Option α) (r c : Nat) : α :=
  if s.place.top height + r = s.place.row ∧ c = s.place.column then t.getD (s.window height r c)
  else s.window height r c

theorem cell_type (height width : Nat) (s : Sheet α) (t : Option α) (r c : Nat) :
    (s.type width t).cell (s.place.top height + r) c = s.written height t r c := rfl

/-- **The rows that are shown**: a break in the last one moves them up by one and puts a blank row
    below them. -/
theorem window_type {height width : Nat} {blank : α} {s : Sheet α} (h : s.Blank height blank)
    (t : Option α) {r c : Nat} (hr : r < height) :
    (s.type width t).window height r c =
      if s.place.Breaks width t ∧ height ≤ s.place.row + 1 then
        if r + 1 < height then s.written height t (r + 1) c else blank
      else s.written height t r c := by
  unfold Sheet.window
  show (s.type width t).cell ((s.place.next width t).top height + r) c = _
  by_cases hbreak : s.place.Breaks width t
  · rw [next_of_breaks hbreak]
    by_cases hbottom : height ≤ s.place.row + 1
    · rw [if_pos ⟨hbreak, hbottom⟩]
      have htop : Place.top height ⟨s.place.row + 1, 0⟩ = s.place.top height + 1 := by
        show s.place.row + 1 + 1 - height = s.place.row + 1 - height + 1
        omega
      rw [htop, Nat.add_assoc, Nat.add_comm 1 r]
      split
      · exact cell_type height width s t (r + 1) c
      · -- the row after the one that was typed into
        have hnew : s.place.top height + (r + 1) = s.place.row + 1 := by
          unfold Place.top
          omega
        rw [hnew, cell_type_of_ne (Nat.succ_ne_self _)]
        exact h _ c hbottom (Nat.lt_succ_self _)
    · rw [if_neg fun hboth => hbottom hboth.2, ← cell_type height width]
      have htop : Place.top height ⟨s.place.row + 1, 0⟩ = s.place.top height := by
        show s.place.row + 1 + 1 - height = s.place.row + 1 - height
        omega
      rw [htop]
  · rw [if_neg fun hboth => hbreak hboth.1, next_of_not_breaks hbreak]
    exact cell_type height width s t r c

end SystemOS.Lib.Terminal
