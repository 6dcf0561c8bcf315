/-
  SystemOS.Lib.Transition — labelled transition systems and the three rules every run argument of
  this development goes through.

  A system is an initial predicate and a labelled step relation; nothing here names a program.

  Key results:
    * `Reachable.invariant`   — a predicate that holds initially and survives each step holds in
      every reachable state.
    * `Reachable.of_restrict` — the runs whose steps all meet a side condition are runs.
    * `Exec.invariant`, `Exec.append` — the same for a run with its list of labels kept.
    * `Exec.variant`          — a bound on the length of runs.
    * `Exec.simulates`        — a run of one system is matched by one of another, step by step.
    * `feed_refines`          — machines that answer alike on related states answer alike on
      sequences of inputs.
    * `throughout_iff`        — two properties of each step of a history that agree as long as one of
      them has held.
-/
import Mathlib.Data.List.Basic
import Mathlib.Data.List.Induction

namespace SystemOS.Lib.Transition

universe u v

/-- A labelled transition system: where runs may start and what one step may do. -/
structure System (σ : Type u) (ε : Type v) where
  init : σ → Prop
  step : σ → ε → σ → Prop

variable {σ : Type u} {ε : Type v} {S : System σ ε}

namespace System

/-- The states some finite run reaches. -/
inductive Reachable (S : System σ ε) : σ → Prop
  | start {s : σ} : S.init s → Reachable S s
  | next {s s' : σ} {e : ε} : Reachable S s → S.step s e s' → Reachable S s'

/-- The system that only takes the steps meeting `C`, a condition on the state before the step and
    its label. -/
def restrict (S : System σ ε) (C : σ → ε → Prop) : System σ ε where
  init := S.init
  step s e s' := C s e ∧ S.step s e s'

/-- A finite run with its labels, oldest first. -/
inductive Exec (S : System σ ε) : σ → List ε → σ → Prop
  | nil (s : σ) : Exec S s [] s
  | cons {s s' t : σ} {e : ε} {es : List ε} : S.step s e s' → Exec S s' es t → Exec S s (e :: es) t

/-- **The invariant rule.** -/
theorem Reachable.invariant {I : σ → Prop} (h0 : ∀ s, S.init s → I s)
    (hstep : ∀ s e s', I s → S.step s e s' → I s') {s : σ} (h : S.Reachable s) : I s := by
  induction h with
  | start hi => exact h0 _ hi
  | next _ hs ih => exact hstep _ _ _ ih hs

/-- A run whose steps all meet `C` is a run. -/
theorem Reachable.of_restrict {C : σ → ε → Prop} {s : σ} (h : (S.restrict C).Reachable s) :
    S.Reachable s := by
  induction h with
  | start hi => exact .start hi
  | next _ hs ih => exact .next ih hs.2

/-- A run started in a reachable state stays in reachable states. -/
theorem Exec.reachable {s t : σ} {es : List ε} (h : S.Exec s es t) (hs : S.Reachable s) :
    S.Reachable t := by
  induction h with
  | nil _ => exact hs
  | cons hst _ ih => exact ih (.next hs hst)

/-- The same for a run with its labels. -/
theorem Exec.of_restrict {C : σ → ε → Prop} {s t : σ} {es : List ε}
    (h : (S.restrict C).Exec s es t) : S.Exec s es t := by
  induction h with
  | nil s => exact .nil s
  | cons hst _ ih => exact .cons hst.2 ih

/-- Runs compose. -/
theorem Exec.append {s t u : σ} {es fs : List ε} (h : S.Exec s es t) (k : S.Exec t fs u) :
    S.Exec s (es ++ fs) u := by
  induction h with
  | nil _ => exact k
  | cons hst _ ih => exact .cons hst (ih k)

/-- The invariant rule along one run. -/
theorem Exec.invariant {I : σ → Prop} (hstep : ∀ s e s', I s → S.step s e s' → I s')
    {s t : σ} {es : List ε} (h : S.Exec s es t) (hs : I s) : I t := by
  induction h with
  | nil _ => exact hs
  | cons hst _ ih => exact ih (hstep _ _ _ hs hst)

/-- The variant rule: a measure that every step lowers bounds the run. -/
theorem Exec.variant {I : σ → Prop} {μ : σ → Nat}
    (hstep : ∀ s e s', I s → S.step s e s' → I s' ∧ μ s' + 1 ≤ μ s)
    {s t : σ} {es : List ε} (h : S.Exec s es t) (hs : I s) : es.length + μ t ≤ μ s := by
  induction h with
  | nil _ => simp
  | cons hst _ ih =>
    obtain ⟨hI, hless⟩ := hstep _ _ _ hs hst
    have hrest := ih hI
    rw [List.length_cons]
    omega

/-- **The simulation rule**: steps are matched by steps with the same label. -/
theorem Exec.simulates {τ : Type*} {T : System τ ε} {R : σ → τ → Prop}
    (hstep : ∀ s t e s', R s t → S.step s e s' → ∃ t', T.step t e t' ∧ R s' t')
    {s s' : σ} {es : List ε} (h : S.Exec s es s') {t : τ} (hR : R s t) :
    ∃ t', T.Exec t es t' ∧ R s' t' := by
  induction h generalizing t with
  | nil _ => exact ⟨t, .nil t, hR⟩
  | cons hst _ ih =>
    obtain ⟨t₁, hfirst, hR₁⟩ := hstep _ _ _ _ hR hst
    obtain ⟨t', hrest, hR'⟩ := ih hR₁
    exact ⟨t', .cons hfirst hrest, hR'⟩

end System

/-! ## Machines. -/

section Machines

variable {τ α β : Type*} {f : α → σ → β × σ} {g : α → τ → β × τ}

/-- The answers of a machine to a sequence of inputs, and its last state. -/
def feed (f : α → σ → β × σ) : σ → List α → List β × σ
  | s, [] => ([], s)
  | s, a :: as =>
    let (b, s') := f a s
    let (bs, t) := feed f s' as
    (b :: bs, t)

/-- Every input meets `C` in the state that it comes to. -/
def Meets (C : σ → α → Prop) (f : α → σ → β × σ) : σ → List α → Prop
  | _, [] => True
  | s, a :: as => C s a ∧ Meets C f (f a s).2 as

/-- **The simulation rule** for machines. -/
theorem feed_refines {R : σ → τ → Prop} {C : τ → α → Prop}
    (hstep : ∀ a s t, R s t → C t a → (f a s).1 = (g a t).1 ∧ R (f a s).2 (g a t).2)
    {as : List α} : ∀ {s : σ} {t : τ}, R s t → Meets C g t as →
      (feed f s as).1 = (feed g t as).1 ∧ R (feed f s as).2 (feed g t as).2 := by
  induction as with
  | nil =>
    intro s t h _
    exact ⟨rfl, h⟩
  | cons a as ih =>
    intro s t h hmeets
    obtain ⟨hanswer, hnext⟩ := hstep a s t h hmeets.1
    obtain ⟨hanswers, hlast⟩ := ih hnext hmeets.2
    refine ⟨?_, hlast⟩
    show (f a s).1 :: (feed f (f a s).2 as).1 = (g a t).1 :: (feed g (g a t).2 as).1
    rw [hanswer, hanswers]

end Machines

/-! ## Histories. -/

section Histories

variable {α : Type u} {P Q : List α → α → Prop} {es : List α} {e : α}

/-- `P` holds of each element of a list and of what comes before it. -/
def Throughout (P : List α → α → Prop) (es : List α) : Prop :=
  ∀ before e after, es = before ++ e :: after → P before e

theorem throughout_nil : Throughout P [] := by
  intro before e after h
  exact absurd h.symm (List.append_ne_nil_of_right_ne_nil before (List.cons_ne_nil e after))

theorem throughout_concat : Throughout P (es ++ [e]) ↔ Throughout P es ∧ P es e := by
  constructor
  · intro h
    refine ⟨fun before x after hes => h before x (after ++ [e]) ?_, h es e [] rfl⟩
    rw [hes, List.append_assoc, List.cons_append]
  · rintro ⟨h, he⟩ before x after hes
    rcases List.eq_nil_or_concat' after with rfl | ⟨after', y, rfl⟩
    · obtain ⟨rfl, hx⟩ := List.append_inj' hes rfl
      cases hx
      exact he
    · have hinit : es = before ++ x :: after' :=
        (List.append_inj' (hes.trans (List.append_assoc before (x :: after') [y]).symm) rfl).1
      exact h before x after' hinit

/-- **Two properties of a history** over the domain `D`. -/
theorem throughout_iff {D : α → Prop} (hD : ∀ e ∈ es, D e)
    (h : ∀ es e, (∀ x ∈ es, D x) → D e → Throughout P es → (P es e ↔ Q es e)) :
    Throughout P es ↔ Throughout Q es := by
  induction es using List.reverseRecOn with
  | nil => exact iff_of_true throughout_nil throughout_nil
  | append_singleton es e ih =>
    have hes : ∀ x ∈ es, D x := fun x hx => hD x (List.mem_append_left _ hx)
    have he : D e := hD e (List.mem_append_right _ List.mem_cons_self)
    rw [throughout_concat, throughout_concat, ← ih hes]
    exact and_congr_right fun hP => h es e hes he hP

end Histories

end SystemOS.Lib.Transition
