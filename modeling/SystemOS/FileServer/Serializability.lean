/-
  SystemOS.FileServer.Serializability — when concurrent readF and writeT requests are serializable.

  `write_server_file` gives its lock up between reading the file and rewriting it.  A run in which
  no process reads the file while another one is in that window (`NoIntrusion`) is equivalent to a
  serial execution: a readF takes its place in the order when its reading loop ends, a writeT when
  it closes the rewritten file.

  Main results:
    * `serializable_of_no_intrusion` — such runs are serializable, from any initial content.
    * `update_lost`                  — two interleaved writeT requests lose an update.
-/
import SystemOS.FileServer.FileRequests

namespace SystemOS.FileServer.Serializability

open SystemOS.Lib.Lines SystemOS.Lib.Serial SystemOS.Lib.Transition
open SystemOS.FileServer.FileRequests

variable {reqs : Nat → Request} {content₀ : Bytes} {s s' : State} {order : List Nat}

/-! ## §1. The property and the condition. -/

/-- The serial execution of the requests in `order`. -/
def serial (reqs : Nat → Request) (content₀ : Bytes) (order : List Nat) : Bytes × List (Nat × Bytes) :=
  outcome (fun p => serve (reqs p)) order content₀

/-- The answers given so far are those of a serial execution, and when every request has finished
    or not started, so is the content of the file, with exactly the finished requests executed. -/
def Serializable (reqs : Nat → Request) (content₀ : Bytes) (s : State) : Prop :=
  ∃ order : List Nat, order.Nodup
    ∧ (∀ p m, s.procs p = .finished m → (p, m) ∈ (serial reqs content₀ order).2)
    ∧ ((∀ p, s.procs p = .start ∨ ∃ m, s.procs p = .finished m) →
        s.content = (serial reqs content₀ order).1
          ∧ ∀ p ∈ order, ∃ m, s.procs p = .finished m)

/-- Nobody is between the two `fclose` calls of a writeT. -/
def Quiet (s : State) : Prop := ∀ q, (s.procs q).inWindow = false

/-- The step does not read the file while another process is between the two `fclose` calls of its
    writeT. -/
def NoIntrusion (s : State) (l : Nat × Call) : Prop :=
  l.2 = .read → ∀ q ≠ l.1, (s.procs q).inWindow = false

/-! ## §2. The invariant. -/

/-- The answer of a request that has its place in the serial order. -/
def committed (r : Request) : ProcAt → Option Bytes
  | .finished m => some m
  | .readEnded got => if r.isWrite then none else some (serve r got).2
  | .unlocked got => if r.isWrite then none else some (serve r got).2
  | _ => none

/-- What holds of a process, for the serial content `base` and the actual content. -/
def ProcOk (r : Request) (base content : Bytes) (quiet : Prop) : ProcAt → Prop
  | .reading got => got <+: base ∧ (got ≠ [] → quiet)
  | .readEnded got => r.isWrite = true → got = base ∧ quiet
  | .unlocked _ => r.isWrite = false
  | .released new message => r.isWrite = true ∧ content = base ∧ (new, message) = serve r base
  | .rewriting new off message => r.isWrite = true ∧ off ≤ new.length ∧ content = new.take off
      ∧ (new, message) = serve r base
  | _ => True

structure Inv (reqs : Nat → Request) (content₀ : Bytes) (s : State) (order : List Nat) : Prop where
  nodup : order.Nodup
  mem : ∀ p, p ∈ order ↔ (committed (reqs p) (s.procs p)).isSome = true
  answers : ∀ p m, committed (reqs p) (s.procs p) = some m →
    (p, m) ∈ (serial reqs content₀ order).2
  exclusive : ∀ p q, p ≠ q → (s.procs p).holdsLock = true → (s.procs q).holdsLock = true →
    (reqs p).isWrite = false
  window : ∀ p q, (s.procs p).inWindow = true → (s.procs q).inWindow = true → p = q
  settled : Quiet s → s.content = (serial reqs content₀ order).1
  procs : ∀ p, ProcOk (reqs p) (serial reqs content₀ order).1 s.content (Quiet s) (s.procs p)

/-- Whoever neither holds the lock nor is in the window does not care about the file. -/
theorem ProcOk.bystander {r : Request} {b b' c c' : Bytes} {Q Q' : Prop} {a : ProcAt}
    (h : ProcOk r b c Q a) (hlock : a.holdsLock = false) (hwin : a.inWindow = false) :
    ProcOk r b' c' Q' a := by
  cases a with
  | reading _ => cases hlock
  | readEnded _ => cases hlock
  | released _ _ => cases hwin
  | rewriting _ _ _ => cases hwin
  | unlocked _ => exact h
  | _ => trivial

/-- While somebody is in the window, the others have read nothing yet. -/
theorem ProcOk.outside {r : Request} {b b' c c' : Bytes} {Q Q' : Prop} {a : ProcAt}
    (h : ProcOk r b c Q a) (hQ : ¬ Q) (hwin : a.inWindow = false) : ProcOk r b' c' Q' a := by
  cases a with
  | reading got =>
    have hgot : got = [] := by
      by_contra hne
      exact hQ (h.2 hne)
    subst hgot
    exact ⟨List.nil_prefix, fun hne => absurd rfl hne⟩
  | readEnded _ => exact fun hw => absurd (h hw).2 hQ
  | released _ _ => cases hwin
  | rewriting _ _ _ => cases hwin
  | unlocked _ => exact h
  | _ => trivial

theorem ProcOk.mono {r : Request} {b c : Bytes} {Q Q' : Prop} {a : ProcAt} (h : ProcOk r b c Q a)
    (hQ : Q → Q') : ProcOk r b c Q' a := by
  cases a with
  | reading _ => exact ⟨h.1, fun hne => hQ (h.2 hne)⟩
  | readEnded _ => exact fun hw => ⟨(h hw).1, hQ (h hw).2⟩
  | _ => exact h

/-! ## §3. Moves of one process. -/

theorem setProc_self (s : State) (p : Nat) (a : ProcAt) : (s.setProc p a).procs p = a :=
  Function.update_self ..

theorem setProc_of_ne (s : State) {p q : Nat} (a : ProcAt) (h : q ≠ p) :
    (s.setProc p a).procs q = s.procs q := Function.update_of_ne h ..

/-- A fact about every process after a move of `p`. -/
theorem forall_setProc {P : Nat → ProcAt → Prop} {p : Nat} {a : ProcAt} (hp : P p a)
    (hother : ∀ q ≠ p, P q (s.procs q)) : ∀ q, P q ((s.setProc p a).procs q) := by
  intro q
  by_cases hqp : q = p
  · rw [hqp, setProc_self]
    exact hp
  · rw [setProc_of_ne s a hqp]
    exact hother q hqp

theorem quiet_setProc {p : Nat} {a : ProcAt} (ha : a.inWindow = false) (h : Quiet s) :
    Quiet (s.setProc p a) := forall_setProc (P := fun _ b => b.inWindow = false) ha fun q _ => h q

theorem quiet_of_setProc {p : Nat} {a : ProcAt} (ha : (s.procs p).inWindow = false)
    (h : Quiet (s.setProc p a)) : Quiet s := by
  intro q
  by_cases hqp : q = p
  · rw [hqp]
    exact ha
  · have := h q
    rwa [setProc_of_ne s a hqp] at this

/-- Moving `p` keeps the lock discipline if `p` held the lock already or may have it. -/
theorem Inv.exclusive_move (h : Inv reqs content₀ s order) {p : Nat} {a : ProcAt}
    (hlock : a.holdsLock = true → (s.procs p).holdsLock = true ∨ Grantable reqs s p) :
    ∀ q r, q ≠ r → ((s.setProc p a).procs q).holdsLock = true →
      ((s.setProc p a).procs r).holdsLock = true → (reqs q).isWrite = false := by
  intro q r hne hq hr
  by_cases hqp : q = p
  · -- the lock was held before, or has just been granted
    subst hqp
    rw [setProc_self] at hq
    rw [setProc_of_ne s a (Ne.symm hne)] at hr
    rcases hlock hq with hheld | hgrant
    · exact h.exclusive q r hne hheld hr
    · exact (hgrant r hr).1
  · rw [setProc_of_ne s a hqp] at hq
    by_cases hrp : r = p
    · subst hrp
      rw [setProc_self] at hr
      rcases hlock hr with hheld | hgrant
      · exact h.exclusive q r hne hq hheld
      · exact (hgrant q hq).2
    · rw [setProc_of_ne s a hrp] at hr
      exact h.exclusive q r hne hq hr

/-- A move to a place outside the window brings nobody into it. -/
theorem window_back {p q : Nat} {a : ProcAt} (ha : a.inWindow = false)
    (h : ((s.setProc p a).procs q).inWindow = true) : (s.procs q).inWindow = true := by
  by_cases hqp : q = p
  · rw [hqp, setProc_self, ha] at h
    cases h
  · rwa [setProc_of_ne s a hqp] at h

/-- When nobody else is in the window, a move of `p` leaves at most `p` in it. -/
theorem window_only {p q : Nat} {a : ProcAt} (hothers : ∀ r ≠ p, (s.procs r).inWindow = false)
    (h : ((s.setProc p a).procs q).inWindow = true) : q = p := by
  by_contra hqp
  rw [setProc_of_ne s a hqp, hothers q hqp] at h
  cases h

/-- The window belongs to one process at a time. -/
theorem Inv.others (h : Inv reqs content₀ s order) {p : Nat} (hp : (s.procs p).inWindow = true) :
    ∀ q ≠ p, (s.procs q).inWindow = false := by
  intro q hqp
  by_contra hq
  exact hqp (h.window q p (by simpa using hq) hp)

/-- A move outside the window that leaves the file and the serial order alone. -/
theorem Inv.move (h : Inv reqs content₀ s order) {p : Nat} {a : ProcAt}
    (hcom : committed (reqs p) a = committed (reqs p) (s.procs p))
    (hwin : (s.procs p).inWindow = false) (hwin' : a.inWindow = false)
    (hlock : a.holdsLock = true → (s.procs p).holdsLock = true ∨ Grantable reqs s p)
    (hok : ProcOk (reqs p) (serial reqs content₀ order).1 s.content (Quiet s) a) :
    Inv reqs content₀ (s.setProc p a) order where
  nodup := h.nodup
  mem := forall_setProc (P := fun q b => q ∈ order ↔ (committed (reqs q) b).isSome = true)
    (by rw [hcom]; exact h.mem p) fun q _ => h.mem q
  answers := forall_setProc
    (P := fun q b => ∀ m, committed (reqs q) b = some m → (q, m) ∈ (serial reqs content₀ order).2)
    (by rw [hcom]; exact h.answers p) fun q _ => h.answers q
  exclusive := h.exclusive_move hlock
  window := by
    intro q r hq hr
    exact h.window q r (window_back hwin' hq) (window_back hwin' hr)
  settled := fun hq => h.settled (quiet_of_setProc hwin hq)
  procs := forall_setProc
    (P := fun q b => ProcOk (reqs q) (serial reqs content₀ order).1 s.content
      (Quiet (s.setProc p a)) b)
    (hok.mono (quiet_setProc hwin')) fun q _ => (h.procs q).mono (quiet_setProc hwin')

/-- The serial execution with one more request. -/
theorem serial_concat (reqs : Nat → Request) (content₀ : Bytes) (order : List Nat) (p : Nat) :
    serial reqs content₀ (order ++ [p])
      = ((serve (reqs p) (serial reqs content₀ order).1).1,
        (serial reqs content₀ order).2 ++ [(p, (serve (reqs p) (serial reqs content₀ order).1).2)]) :=
  outcome_concat order p content₀

/-- The order-related part of the invariant when `p` takes its place. -/
theorem Inv.commit (h : Inv reqs content₀ s order) {p : Nat} {a : ProcAt}
    (hbefore : committed (reqs p) (s.procs p) = none)
    (hafter : committed (reqs p) a = some (serve (reqs p) (serial reqs content₀ order).1).2) :
    (order ++ [p]).Nodup
      ∧ (∀ q, q ∈ order ++ [p]
          ↔ (committed (reqs q) ((s.setProc p a).procs q)).isSome = true)
      ∧ ∀ q m, committed (reqs q) ((s.setProc p a).procs q) = some m →
          (q, m) ∈ (serial reqs content₀ (order ++ [p])).2 := by
  have hnot : p ∉ order := by
    rw [h.mem p, hbefore]
    exact nofun
  refine ⟨?_, ?_, ?_⟩
  · -- `p` has had no place yet
    rw [List.nodup_append]
    refine ⟨h.nodup, List.pairwise_singleton .., fun q hq r hr => ?_⟩
    rw [List.mem_singleton.mp hr]
    exact fun heq => hnot (heq ▸ hq)
  · refine forall_setProc
      (P := fun q b => q ∈ order ++ [p] ↔ (committed (reqs q) b).isSome = true) ?_ ?_
    · rw [hafter]
      exact ⟨fun _ => rfl, fun _ => List.mem_append_right order (List.mem_singleton_self p)⟩
    · intro q hqp
      rw [← h.mem q, List.mem_append, List.mem_singleton]
      exact ⟨fun hq => hq.resolve_right hqp, .inl⟩
  · -- the answers of the others are those of the shorter execution
    rw [serial_concat]
    refine forall_setProc (P := fun q b => ∀ m, committed (reqs q) b = some m → (q, m) ∈ _) ?_ ?_
    · intro m hm
      rw [hafter] at hm
      rw [← Option.some.inj hm]
      exact List.mem_append_right _ (List.mem_singleton_self _)
    · exact fun q _ m hm => List.mem_append_left _ (h.answers q m hm)

/-- A readF leaves its reading loop. -/
theorem Inv.readF_ends (h : Inv reqs content₀ s order) {p : Nat} {got : Bytes}
    (hp : s.procs p = .reading got) (hr : (reqs p).isWrite = false)
    (hans : (serve (reqs p) got).2 = (serve (reqs p) (serial reqs content₀ order).1).2) :
    Inv reqs content₀ (s.setProc p (.readEnded got)) (order ++ [p]) := by
  have hbefore : committed (reqs p) (s.procs p) = none := by
    rw [hp]
    rfl
  have hafter : committed (reqs p) (.readEnded got)
      = some (serve (reqs p) (serial reqs content₀ order).1).2 := by
    unfold committed
    simp only
    rw [if_neg (by rw [hr]; exact nofun), hans]
  obtain ⟨hnodup, hmem, hanswers⟩ := h.commit hbefore hafter
  -- a readF leaves the file as it is
  have hbase : (serial reqs content₀ (order ++ [p])).1 = (serial reqs content₀ order).1 := by
    rw [serial_concat]
    cases hreq : reqs p with
    | readF _ _ => rfl
    | writeT _ _ => rw [hreq] at hr; cases hr
  have hwin : (s.procs p).inWindow = false := by rw [hp]; rfl
  refine ⟨hnodup, hmem, hanswers, h.exclusive_move fun _ => .inl (by rw [hp]; rfl), ?_, ?_, ?_⟩
  · intro q r hq hr'
    exact h.window q r (window_back rfl hq) (window_back rfl hr')
  · rw [hbase]
    exact fun hq => h.settled (quiet_of_setProc hwin hq)
  · rw [hbase]
    refine forall_setProc (P := fun q b => ProcOk (reqs q) (serial reqs content₀ order).1
      s.content (Quiet (s.setProc p (.readEnded got))) b) ?_ ?_
    · exact fun hw => absurd (hr.symm.trans hw) nofun
    · exact fun q _ => (h.procs q).mono (quiet_setProc rfl)

/-! ## §4. The window of a writeT. -/

/-- A state with `p` in the window is not quiet. -/
theorem not_quiet {p : Nat} (h : (s.procs p).inWindow = true) : ¬ Quiet s := by
  intro hq
  rw [hq p] at h
  cases h

/-- A writeT closes the descriptor that carries its lock. -/
theorem Inv.closeFirst (h : Inv reqs content₀ s order) {p : Nat} {got : Bytes}
    (hp : s.procs p = .readEnded got) (hw : (reqs p).isWrite = true) :
    Inv reqs content₀
      (s.setProc p (.released (serve (reqs p) got).1 (serve (reqs p) got).2)) order := by
  obtain ⟨hgot, hquiet⟩ : got = (serial reqs content₀ order).1 ∧ Quiet s := by
    have := h.procs p
    rw [hp] at this
    exact this hw
  have hlocked : (s.procs p).holdsLock = true := by rw [hp]; rfl
  set a : ProcAt := .released (serve (reqs p) got).1 (serve (reqs p) got).2 with ha
  have hnotQuiet : ¬ Quiet (s.setProc p a) := not_quiet (p := p) (by rw [setProc_self]; rfl)
  -- a writeT takes its place at the end only
  have hcom : committed (reqs p) (s.procs p) = none := by
    rw [hp]
    unfold committed
    rw [hw]
    rfl
  refine ⟨h.nodup, ?_, ?_, h.exclusive_move fun hl => absurd hl nofun, ?_, ?_, ?_⟩
  · exact forall_setProc (P := fun q b => q ∈ order ↔ (committed (reqs q) b).isSome = true)
      (by rw [h.mem p, hcom]; exact Iff.rfl) fun q _ => h.mem q
  · exact forall_setProc
      (P := fun q b => ∀ m, committed (reqs q) b = some m → (q, m) ∈ (serial reqs content₀ order).2)
      nofun fun q _ => h.answers q
  · -- `p` enters the window, and nobody else is in it
    intro q r hq hr
    have hothers : ∀ t ≠ p, (s.procs t).inWindow = false := fun t _ => hquiet t
    rw [window_only hothers hq, window_only hothers hr]
  · exact fun hq => absurd hq hnotQuiet
  · refine forall_setProc (P := fun q b => ProcOk (reqs q) (serial reqs content₀ order).1 s.content
      (Quiet (s.setProc p a)) b) ?_ ?_
    · exact ⟨hw, h.settled hquiet, by rw [hgot]⟩
    · -- the exclusive lock was held, so nobody else holds one
      intro q hqp
      refine (h.procs q).bystander ?_ (hquiet q)
      by_contra hheld
      have := h.exclusive p q (Ne.symm hqp) hlocked (by simpa using hheld)
      rw [hw] at this
      cases this

/-- A step inside the window: `p` truncates or writes. -/
theorem Inv.inside (h : Inv reqs content₀ s order) {p : Nat} {a : ProcAt} {content : Bytes}
    (hp : (s.procs p).inWindow = true) (ha : a.inWindow = true)
    (hcom : committed (reqs p) (s.procs p) = none) (hcom' : committed (reqs p) a = none)
    (hlock : a.holdsLock = false)
    (hok : ∀ Q, ProcOk (reqs p) (serial reqs content₀ order).1 content Q a) :
    Inv reqs content₀ { s.setProc p a with content := content } order := by
  have hnotQuiet : ¬ Quiet (s.setProc p a) := not_quiet (p := p) (by rw [setProc_self]; exact ha)
  have hothers := h.others hp
  refine ⟨h.nodup, ?_, ?_,
    h.exclusive_move fun hl => absurd (hlock.symm.trans hl) nofun, ?_, ?_, ?_⟩
  · exact forall_setProc (P := fun q b => q ∈ order ↔ (committed (reqs q) b).isSome = true)
      (by rw [h.mem p, hcom, hcom']) fun q _ => h.mem q
  · exact forall_setProc
      (P := fun q b => ∀ m, committed (reqs q) b = some m → (q, m) ∈ (serial reqs content₀ order).2)
      (by rw [hcom']; exact nofun) fun q _ => h.answers q
  · intro q r hq hr
    rw [window_only hothers hq, window_only hothers hr]
  · exact fun hq => absurd hq hnotQuiet
  · exact forall_setProc (P := fun q b => ProcOk (reqs q) (serial reqs content₀ order).1 content
      (Quiet (s.setProc p a)) b) (hok _)
      fun q hqp => (h.procs q).outside (not_quiet hp) (hothers q hqp)

/-- Writing the next bytes of `new` behind the first `off`. -/
theorem writeAt_take {new : Bytes} {off : Nat} (k : Nat) (hoff : off ≤ new.length) :
    writeAt (new.take off) off ((new.drop off).take k)
      = new.take (off + ((new.drop off).take k).length) := by
  have hlen : (new.take off).length = off := by
    rw [List.length_take]
    omega
  have hchunk : (new.drop off).take ((new.drop off).take k).length = (new.drop off).take k := by
    rw [List.length_take, ← List.take_eq_take_min]
  unfold writeAt
  rw [hlen, Nat.sub_self, List.take_of_length_le (Nat.le_of_eq hlen),
      List.drop_eq_nil_of_le (Nat.le_trans (Nat.le_of_eq hlen) (Nat.le_add_right _ _)),
      List.take_add, hchunk, List.replicate_zero, List.append_nil, List.append_nil]

/-- A writeT closes the rewritten file and takes its place in the order. -/
theorem Inv.closeLast (h : Inv reqs content₀ s order) {p : Nat} {new message : Bytes}
    (hp : s.procs p = .rewriting new new.length message) :
    Inv reqs content₀ (s.setProc p (.finished message)) (order ++ [p]) := by
  obtain ⟨hw, _, hcontent, hserve⟩ : (reqs p).isWrite = true ∧ new.length ≤ new.length
      ∧ s.content = new.take new.length
      ∧ (new, message) = serve (reqs p) (serial reqs content₀ order).1 := by
    have := h.procs p
    rw [hp] at this
    exact this
  have hin : (s.procs p).inWindow = true := by rw [hp]; rfl
  have hothers := h.others hin
  -- with `p` out of the window the file is settled again
  have hquiet : Quiet (s.setProc p (.finished message)) :=
    forall_setProc (P := fun _ b => b.inWindow = false) rfl hothers
  obtain ⟨hnodup, hmem, hanswers⟩ := h.commit (a := .finished message)
    (show committed (reqs p) (s.procs p) = none by rw [hp]; rfl)
    (by rw [← hserve]; rfl)
  have hbase : (serial reqs content₀ (order ++ [p])).1 = new := by
    rw [serial_concat, ← hserve]
  refine ⟨hnodup, hmem, hanswers, h.exclusive_move fun hl => absurd hl nofun, ?_, ?_, ?_⟩
  · intro q r hq _
    rw [hquiet q] at hq
    cases hq
  · intro _
    rw [hbase]
    exact hcontent.trans (List.take_length)
  · exact forall_setProc (P := fun q b => ProcOk (reqs q) (serial reqs content₀ (order ++ [p])).1
      s.content (Quiet (s.setProc p (.finished message))) b) trivial
      fun q hqp => (h.procs q).outside (not_quiet hin) (hothers q hqp)

/-! ## §5. Every run. -/

theorem inv_step {l : Nat × Call} (h : Inv reqs content₀ s order) (hno : NoIntrusion s l)
    (hst : Step reqs s l.1 l.2 s') : ∃ order', Inv reqs content₀ s' order' := by
  obtain ⟨p, call⟩ := l
  have hat := h.procs p
  -- a process that reads finds the settled content
  have hreads : call = .read → (s.procs p).inWindow = false → Quiet s := by
    intro hcall hwin q
    by_cases hqp : q = p
    · rw [hqp]
      exact hwin
    · exact hno hcall q hqp
  cases hst with
  | «open» hp =>
    exact ⟨order, h.move (by rw [hp]; rfl) (by rw [hp]; rfl) rfl nofun trivial⟩
  | lock hp hgrant =>
    exact ⟨order, h.move (by rw [hp]; rfl) (by rw [hp]; rfl) rfl (fun _ => .inr hgrant)
      ⟨List.nil_prefix, fun hne => absurd rfl hne⟩⟩
  | @read got k hp hsat hlt hk =>
    have hquiet := hreads rfl (by rw [hp]; rfl)
    rw [hp] at hat
    refine ⟨order, h.move (by rw [hp]; rfl) (by rw [hp]; rfl) rfl
      (fun _ => .inl (by rw [hp]; rfl)) ⟨?_, fun _ => hquiet⟩⟩
    obtain ⟨t, ht⟩ := hat.1
    -- what follows `got` in the file follows it in the settled content
    rw [h.settled hquiet, ← ht, List.drop_left]
    exact List.prefix_append_right_inj got |>.mpr (List.take_prefix k t)
  | @readEnd got hp hsat hle =>
    have hquiet := hreads rfl (by rw [hp]; rfl)
    rw [hp] at hat
    -- the whole file has been read
    have hgot : got = (serial reqs content₀ order).1 := by
      refine hat.1.eq_of_length_le ?_
      rw [← h.settled hquiet]
      exact hle
    by_cases hw : (reqs p).isWrite = true
    · refine ⟨order, h.move ?_ (by rw [hp]; rfl) rfl (fun _ => .inl (by rw [hp]; rfl))
        fun _ => ⟨hgot, hquiet⟩⟩
      rw [hp]
      unfold committed
      rw [hw]
      rfl
    · exact ⟨_, h.readF_ends hp (by simpa using hw) (by rw [← hgot])⟩
  | @leaveLoop got hp hsat =>
    rw [hp] at hat
    obtain ⟨t, ht⟩ := hat.1
    have hr : (reqs p).isWrite = false := by
      cases hreq : reqs p with
      | readF _ _ => rfl
      | writeT _ _ => rw [hreq] at hsat; cases hsat
    -- the rest of the file does not change the answer
    refine ⟨_, h.readF_ends hp hr ?_⟩
    rw [← ht, serve_of_satisfied t hsat]
  | @unlock got hp hr =>
    refine ⟨order, h.move ?_ (by rw [hp]; rfl) rfl nofun hr⟩
    rw [hp]
    rfl
  | @closeRead got hp =>
    rw [hp] at hat
    have hr : (reqs p).isWrite = false := hat
    refine ⟨order, h.move ?_ (by rw [hp]; rfl) rfl nofun trivial⟩
    rw [hp]
    unfold committed
    rw [hr]
    rfl
  | closeFirst hp hw => exact ⟨order, h.closeFirst hp hw⟩
  | reopen hp =>
    rw [hp] at hat
    obtain ⟨hw, _, hserve⟩ := hat
    exact ⟨order, h.inside (by rw [hp]; rfl) rfl (by rw [hp]; rfl) rfl rfl
      fun _ => ⟨hw, Nat.zero_le _, rfl, hserve⟩⟩
  | @write new message off k hp hlt _ =>
    rw [hp] at hat
    obtain ⟨hw, hoff, hcontent, hserve⟩ := hat
    refine ⟨order, h.inside (by rw [hp]; rfl) rfl (by rw [hp]; rfl) rfl rfl
      fun _ => ⟨hw, ?_, ?_, hserve⟩⟩
    · rw [List.length_take, List.length_drop]
      omega
    · rw [hcontent, writeAt_take k hoff]
  | closeLast hp => exact ⟨_, h.closeLast hp⟩

theorem start_inv (reqs : Nat → Request) (content₀ : Bytes) :
    Inv reqs content₀ ⟨content₀, fun _ => .start⟩ [] where
  nodup := List.nodup_nil
  mem := fun _ => ⟨fun h => absurd h List.not_mem_nil, nofun⟩
  answers := nofun
  exclusive := fun _ _ _ h => absurd h nofun
  window := fun _ _ h => absurd h nofun
  settled := fun _ => rfl
  procs := fun _ => trivial

theorem Inv.serializable (h : Inv reqs content₀ s order) : Serializable reqs content₀ s := by
  refine ⟨order, h.nodup, fun p m hp => h.answers p m (by rw [hp]; rfl), fun hdone => ⟨?_, ?_⟩⟩
  · refine h.settled fun q => ?_
    rcases hdone q with hq | ⟨m, hq⟩ <;> rw [hq] <;> rfl
  · intro p hp
    rcases hdone p with hq | hq
    · rw [h.mem p, hq] at hp
      cases hp
    · exact hq

/-- **Serializability.**  In a run in which no process reads the file while another one is between
    the two `fclose` calls of its writeT, the answers and the final content are those of a serial
    execution. -/
theorem serializable_of_no_intrusion (reqs : Nat → Request) (content₀ : Bytes) :
    ∀ s, ((fileSystem reqs content₀).restrict NoIntrusion).Reachable s →
      Serializable reqs content₀ s := by
  intro s hs
  have hinv : ∃ order, Inv reqs content₀ s order := by
    refine System.Reachable.invariant (I := fun s => ∃ order, Inv reqs content₀ s order) ?_ ?_ hs
    · intro s heq
      subst heq
      exact ⟨[], start_inv reqs content₀⟩
    · intro s l s' hinv hstep
      obtain ⟨order, h⟩ := hinv
      obtain ⟨hno, hst⟩ := hstep
      exact inv_step h hno hst
  obtain ⟨order, h⟩ := hinv
  exact h.serializable

/-! ## §6. A lost update. -/

theorem setProc_setProc (s : State) (p : Nat) (a b : ProcAt) :
    (s.setProc p a).setProc p b = s.setProc p b := by
  unfold State.setProc
  simp only [Function.update_idem]

section Requests

variable {C : State → Nat × Call → Prop} {p : Nat}

theorem reachable_call {call : Call} (hs : ((fileSystem reqs content₀).restrict C).Reachable s)
    (hC : C s (p, call)) (h : Step reqs s p call s') :
    ((fileSystem reqs content₀).restrict C).Reachable s' :=
  hs.next (e := (p, call)) ⟨hC, h⟩

/-- A writeT that has opened the file and finds the lock free can run up to its first `fclose`. -/
theorem opened_released (hs : ((fileSystem reqs content₀).restrict C).Reachable s)
    (hC : ∀ t call, (∀ q ≠ p, t.procs q = s.procs q) → C t (p, call))
    (hp : s.procs p = .opened) (hfree : ∀ q, (s.procs q).holdsLock = false)
    (hw : (reqs p).isWrite = true) : ((fileSystem reqs content₀).restrict C).Reachable
      (s.setProc p (.released (serve (reqs p) s.content).1 (serve (reqs p) s.content).2)) := by
  have hstep : ∀ a call, C (s.setProc p a) (p, call) := fun a call =>
    hC _ call fun q hq => setProc_of_ne s a hq
  have hunsat : ∀ got, (reqs p).satisfied got = false := by
    intro got
    cases hreq : reqs p with
    | readF _ _ => rw [hreq] at hw; cases hw
    | writeT _ _ => rfl
  have hgrant : Grantable reqs s p := fun q hq => absurd ((hfree q).symm.trans hq) nofun
  have hlock := reachable_call hs (hC s .flock fun _ _ => rfl) (.lock hp hgrant)
  -- one `read` gets the whole file
  have hread : ((fileSystem reqs content₀).restrict C).Reachable
      (s.setProc p (.reading s.content)) := by
    rcases Nat.eq_zero_or_pos s.content.length with h0 | hpos
    · rwa [List.length_eq_zero_iff.mp h0]
    · have := reachable_call hlock (hstep _ _)
        (.read s.content.length (setProc_self s p _) (hunsat []) hpos hpos)
      rw [setProc_setProc] at this
      simpa [State.setProc] using this
  have hend := reachable_call hread (hstep _ _)
    (.readEnd (setProc_self s p _) (hunsat _) (Nat.le_refl _))
  rw [setProc_setProc] at hend
  have hclose := reachable_call hend (hstep _ _) (.closeFirst (setProc_self s p _) hw)
  rwa [setProc_setProc] at hclose

/-- The same from its beginning. -/
theorem reaches_released (hs : ((fileSystem reqs content₀).restrict C).Reachable s)
    (hC : ∀ t call, (∀ q ≠ p, t.procs q = s.procs q) → C t (p, call))
    (hp : s.procs p = .start) (hfree : ∀ q, (s.procs q).holdsLock = false)
    (hw : (reqs p).isWrite = true) : ((fileSystem reqs content₀).restrict C).Reachable
      (s.setProc p (.released (serve (reqs p) s.content).1 (serve (reqs p) s.content).2)) := by
  have hopen := reachable_call hs (hC s .fopenRead fun _ _ => rfl) (.open hp)
  have hreleased := opened_released hopen
    (fun t call ht => hC t call fun q hq => (ht q hq).trans (setProc_of_ne s _ hq))
    (setProc_self s p _) (forall_setProc (P := fun _ b => b.holdsLock = false) rfl fun q _ => hfree q)
    hw
  rwa [setProc_setProc] at hreleased

/-- From there it can rewrite the file and finish. -/
theorem reaches_finished {new message : Bytes}
    (hs : ((fileSystem reqs content₀).restrict C).Reachable s)
    (hC : ∀ t call, (∀ q ≠ p, t.procs q = s.procs q) → C t (p, call))
    (hp : s.procs p = .released new message) :
    ((fileSystem reqs content₀).restrict C).Reachable
      { s.setProc p (.finished message) with content := new } := by
  have hstep : ∀ a bs call, C { s.setProc p a with content := bs } (p, call) :=
    fun a _ call => hC _ call fun q hq => setProc_of_ne s a hq
  have hopen := reachable_call hs (hC s .fopenWrite fun _ _ => rfl) (.reopen hp)
  -- one `write` puts the whole file
  have hwrite : ((fileSystem reqs content₀).restrict C).Reachable
      { s.setProc p (.rewriting new new.length message) with content := new } := by
    rcases Nat.eq_zero_or_pos new.length with h0 | hpos
    · rw [h0]
      rw [← List.length_eq_zero_iff.mp h0] at hopen
      exact hopen
    · have := reachable_call hopen (hstep _ _ _)
        (.write new.length (Function.update_self p _ s.procs) hpos hpos)
      simpa [State.setProc, writeAt] using this
  have hclose := reachable_call hwrite (hstep _ _ _)
    (.closeLast (Function.update_self p _ s.procs))
  simpa [State.setProc] using hclose

end Requests

/-- Two clients append a line each to a file of one line. -/
def twoAppends : Nat → Request
  | 0 => .writeT 0 [120]
  | _ => .writeT 0 [121]

def oneLine : Bytes := [97, 10]

/-- Every process is outside the lock and the window. -/
def Apart (s : State) : Prop := ∀ q, (s.procs q).inWindow = false ∧ (s.procs q).holdsLock = false

theorem Apart.setProc (h : Apart s) {p : Nat} {a : ProcAt} (hwin : a.inWindow = false)
    (hlock : a.holdsLock = false) : Apart (s.setProc p a) :=
  forall_setProc (P := fun _ b => b.inWindow = false ∧ b.holdsLock = false) ⟨hwin, hlock⟩
    fun q _ => h q

/-- While nobody else is at the file, a writeT that has opened it can run to its end. -/
theorem runs_whole {p : Nat}
    (hs : ((fileSystem reqs content₀).restrict NoIntrusion).Reachable s) (h : Apart s)
    (hp : s.procs p = .opened) (hw : (reqs p).isWrite = true) :
    ((fileSystem reqs content₀).restrict NoIntrusion).Reachable
      { s.setProc p (.finished (serve (reqs p) s.content).2) with
        content := (serve (reqs p) s.content).1 } := by
  have hquiet : ∀ t call, (∀ q ≠ p, t.procs q = s.procs q) → NoIntrusion t (p, call) := by
    intro t call ht _ q hq
    rw [ht q hq]
    exact (h q).1
  have hreleased := opened_released hs hquiet hp (fun q => (h q).2) hw
  have hfinished := reaches_finished hreleased
    (fun t call ht => hquiet t call fun q hq => (ht q hq).trans (setProc_of_ne s _ hq))
    (setProc_self s p _)
  rwa [setProc_setProc] at hfinished

/-- The second client opens the file, the first one runs from its beginning to its end, and the
    second one goes on. -/
theorem serializable_around : ∃ s, ((fileSystem twoAppends oneLine).restrict NoIntrusion).Reachable s
    ∧ s.content = [97, 10, 120, 10, 121, 10] ∧ (∀ p < 2, ∃ m, s.procs p = .finished m)
    ∧ Serializable twoAppends oneLine s := by
  have h0 : ((fileSystem twoAppends oneLine).restrict NoIntrusion).Reachable
      ⟨oneLine, fun _ => .start⟩ := .start rfl
  have hapart : Apart ⟨oneLine, fun _ => .start⟩ := fun _ => ⟨rfl, rfl⟩
  have hopens : ∀ s p, NoIntrusion s (p, .fopenRead) := fun s p hread => by cases hread
  have h1 := reachable_call (p := 1) h0 (hopens _ 1) (.open rfl)
  have h2 := reachable_call (p := 0) h1 (hopens _ 0) (.open rfl)
  have hopened := (hapart.setProc (p := 1) (a := .opened) rfl rfl).setProc (p := 0) (a := .opened) rfl rfl
  have h3 := runs_whole (p := 0) h2 hopened rfl rfl
  have h4 := runs_whole (p := 1) h3 (hopened.setProc (p := 0) rfl rfl) rfl rfl
  refine ⟨_, h4, by decide, fun p hp => ?_, serializable_of_no_intrusion _ _ _ h4⟩
  rcases Nat.lt_succ_iff_lt_or_eq.mp hp with hp | rfl
  · obtain rfl := Nat.lt_one_iff.mp hp
    exact ⟨_, rfl⟩
  · exact ⟨_, rfl⟩

/-- Both have read the file; one has rewritten it, then the other. -/
def bothAppended : State :=
  { ({ ((⟨oneLine, fun _ => .start⟩ : State).setProc 0 (.released [97, 10, 120, 10]
        (serve (twoAppends 0) oneLine).2)).setProc 1 (.released [97, 10, 121, 10]
        (serve (twoAppends 1) oneLine).2) |>.setProc 0 (.finished (serve (twoAppends 0) oneLine).2)
      with content := [97, 10, 120, 10] } : State).setProc 1
        (.finished (serve (twoAppends 1) oneLine).2) with content := [97, 10, 121, 10] }

theorem bothAppended_reachable : (fileSystem twoAppends oneLine).Reachable bothAppended := by
  have h0 : ((fileSystem twoAppends oneLine).restrict fun _ _ => True).Reachable
      ⟨oneLine, fun _ => .start⟩ := .start rfl
  have hany : ∀ {s : State} {p : Nat}, ∀ (t : State) (_ : Call),
      (∀ q ≠ p, t.procs q = s.procs q) → True := fun _ _ _ => trivial
  have h1 := reaches_released (p := 0) h0 hany rfl (fun _ => rfl) rfl
  have h2 := reaches_released (p := 1) h1 hany rfl
    (forall_setProc (P := fun _ b => b.holdsLock = false) rfl fun _ _ => rfl) rfl
  have h3 := reaches_finished (p := 0) h2 hany rfl
  exact (reaches_finished (p := 1) h3 hany rfl).of_restrict

/-- **The update of the first client is lost**: no serial execution leaves this file. -/
theorem update_lost : ¬ ∀ s, (fileSystem twoAppends oneLine).Reachable s →
    Serializable twoAppends oneLine s := by
  intro hclaim
  obtain ⟨order, hnodup, hanswers, hdone⟩ := hclaim _ bothAppended_reachable
  have h0 : 0 ∈ order := mem_of_answered (hanswers 0 _ rfl)
  have h1 : 1 ∈ order := mem_of_answered (hanswers 1 _ rfl)
  have hstart : ∀ p, p ≠ 0 → p ≠ 1 → bothAppended.procs p = .start := by
    intro p hp0 hp1
    unfold bothAppended
    simp [State.setProc, Function.update_of_ne hp0, Function.update_of_ne hp1]
  obtain ⟨hcontent, honly⟩ := hdone fun p => by
    by_cases hp0 : p = 0
    · exact .inr ⟨_, by rw [hp0]; rfl⟩
    by_cases hp1 : p = 1
    · exact .inr ⟨_, by rw [hp1]; rfl⟩
    exact .inl (hstart p hp0 hp1)
  -- the order consists of the two requests
  have hperm : order.Perm [0, 1] := by
    refine (List.perm_ext_iff_of_nodup hnodup (by decide)).mpr fun p => ⟨fun hp => ?_, ?_⟩
    · obtain ⟨m, hm⟩ := honly p hp
      by_contra hnot
      simp only [List.mem_cons, List.not_mem_nil, or_false, not_or] at hnot
      rw [hstart p hnot.1 hnot.2] at hm
      cases hm
    · intro hp
      simp only [List.mem_cons, List.not_mem_nil, or_false] at hp
      rcases hp with rfl | rfl
      · exact h0
      · exact h1
  have hcases : order = [0, 1] ∨ order = [1, 0] := by
    have hlen := hperm.length_eq
    rcases order with _ | ⟨a, _ | ⟨b, _ | ⟨_, _⟩⟩⟩ <;> simp at hlen h0 h1 ⊢
    omega
  rcases hcases with rfl | rfl
  · exact absurd hcontent (by decide)
  · exact absurd hcontent (by decide)

end SystemOS.FileServer.Serializability
