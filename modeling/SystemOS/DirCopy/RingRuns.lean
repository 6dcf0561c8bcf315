/-
  SystemOS.DirCopy.RingRuns — the ring of the directory copier over every interleaving.

  The ring refines a queue: `enqueued` is what was taken, followed by what the slots hold.  Two
  facts carry the proof.  Only the owner of the mutex is inside a critical section
  (`Exclusive`), and the thread that is past its loop test still has room, or an entry, when it
  acts (`Guards`), because nobody else can have touched the ring in between and `stop` is never
  cleared.

  Main result:
    * `ring_is_fifo` — in every reachable state the indices are consistent, the slots hold exactly
      the entries not yet taken, in order, and every entry is taken once, first in first out.
-/
import SystemOS.DirCopy.Copier

namespace SystemOS.DirCopy.RingRuns

open SystemOS.Lib.BoundedRing SystemOS.Lib.Transition SystemOS.DirCopy.Copier

variable {c : Config} {s s' : State} {l : Label}

/-! ## §1. Mutual exclusion. -/

/-- Thread `t` is inside a critical section. -/
def inside (s : State) : Thread → Bool
  | .manager => s.manager.holds
  | .worker i => (s.workers i).holds

/-- Whoever is inside owns the mutex. -/
def Exclusive (s : State) : Prop := ∀ t, inside s t = true → s.owner = some t

theorem setWorker_self (s : State) (i : Nat) (w : WorkerAt) : (s.setWorker i w).workers i = w :=
  Function.update_self ..

theorem setWorker_of_ne (s : State) {i j : Nat} (w : WorkerAt) (h : j ≠ i) :
    (s.setWorker i w).workers j = s.workers j := Function.update_of_ne h ..

/-- What a worker is after worker `i` has moved it was before, if worker `i` was. -/
theorem of_setWorker (P : WorkerAt → Prop) {i : Nat} {w : WorkerAt} (hw : P w → P (s.workers i))
    (j : Nat) (h : P ((s.setWorker i w).workers j)) : P (s.workers j) := by
  by_cases hji : j = i
  · subst hji
    rw [setWorker_self] at h
    exact hw h
  · rwa [setWorker_of_ne s w hji] at h

/-- What a worker is before worker `i` moves it is afterwards, if worker `i` is. -/
theorem to_setWorker (P : WorkerAt → Prop) {i : Nat} {w : WorkerAt} (hw : P (s.workers i) → P w)
    (j : Nat) (h : P (s.workers j)) : P ((s.setWorker i w).workers j) := by
  by_cases hji : j = i
  · subst hji
    rw [setWorker_self]
    exact hw h
  · rwa [setWorker_of_ne s w hji]

/-- A wake-up moves nobody in or out of a critical section. -/
theorem signalNotEmpty_inside (h : SignalNotEmpty c s s') (i : Nat) :
    (s'.workers i).holds = (s.workers i).holds := by
  cases h with
  | @wake j _ hw =>
    by_cases hij : i = j
    · subst hij
      rw [setWorker_self, hw]
      rfl
    · rw [setWorker_of_ne s _ hij]
  | nobody _ => rfl

theorem broadcast_inside (s : State) (i : Nat) :
    (s.broadcastNotEmpty.workers i).holds = (s.workers i).holds := by
  cases h : s.workers i <;> simp [State.broadcastNotEmpty, h, WorkerAt.holds]

theorem signalNotFull_manager (s : State) : s.signalNotFull.manager.holds = s.manager.holds := by
  unfold State.signalNotFull
  cases h : s.manager <;> simp [ManagerAt.holds, h]

theorem signalNotFull_workers (s : State) : s.signalNotFull.workers = s.workers := by
  unfold State.signalNotFull
  split <;> rfl

/-- What a step does to the ownership of the mutex. -/
inductive Ownership (s s' : State) : Prop
  | kept : s'.owner = s.owner → (∀ t, inside s' t = inside s t) → Ownership s s'
  | taken (t : Thread) : s.owner = none → s'.owner = some t →
      (∀ u, u ≠ t → inside s' u = inside s u) → Ownership s s'
  | given (t : Thread) : inside s t = true → s'.owner = none → inside s' t = false →
      (∀ u, u ≠ t → inside s' u = inside s u) → Ownership s s'

theorem Ownership.exclusive (h : Ownership s s') (hs : Exclusive s) : Exclusive s' := by
  intro u hu
  cases h with
  | kept ho hin => rw [ho]; exact hs u (hin u ▸ hu)
  | taken t hnone ho hin =>
    by_cases hut : u = t
    · rw [ho, hut]
    · have := hs u (hin u hut ▸ hu)
      rw [hnone] at this
      cases this
  | given t ht ho hout hin =>
    by_cases hut : u = t
    · rw [hut, hout] at hu
      cases hu
    · -- two threads inside at once
      have h1 := hs u (hin u hut ▸ hu)
      have h2 := hs t ht
      rw [h1] at h2
      exact absurd (Option.some.inj h2) hut

/-- A step that moves the manager only. -/
theorem inside_of_workers (hw : ∀ i, (s'.workers i).holds = (s.workers i).holds) :
    ∀ u, u ≠ Thread.manager → inside s' u = inside s u
  | .manager, h => absurd rfl h
  | .worker i, _ => hw i

/-- A step that moves worker `i` only. -/
theorem inside_of_worker {i : Nat} {w : WorkerAt} {f : Nat → WorkerAt}
    (hm : s'.manager.holds = s.manager.holds) (hf : f = s.workers)
    (hw : s'.workers = Function.update f i w) :
    ∀ u, u ≠ Thread.worker i → inside s' u = inside s u
  | .manager, _ => hm
  | .worker j, h => by
      have hji : j ≠ i := fun hji => h (by rw [hji])
      show (s'.workers j).holds = (s.workers j).holds
      rw [hw, Function.update_of_ne hji, hf]

/-- The same when the move does not cross the border of a critical section. -/
theorem inside_of_inner {i : Nat} {w : WorkerAt} (hm : s'.manager.holds = s.manager.holds)
    (hw : s'.workers = Function.update s.workers i w) (hin : w.holds = (s.workers i).holds) :
    ∀ u, inside s' u = inside s u := by
  intro u
  by_cases hu : u = .worker i
  · subst hu
    show (s'.workers i).holds = (s.workers i).holds
    rw [hw, Function.update_self, hin]
  · exact inside_of_worker hm rfl hw u hu

theorem managerStep_ownership (h : ManagerStep c s s') : Ownership s s' := by
  -- a manager step leaves the workers where they are, but for the wake-ups
  have hsame : ∀ {t : State}, t.workers = s.workers →
      ∀ i, (t.workers i).holds = (s.workers i).holds := fun ht i => by rw [ht]
  have hkept : ∀ {t : State}, t.owner = s.owner → t.workers = s.workers →
      t.manager.holds = s.manager.holds → Ownership s t := fun ho hw hm =>
    .kept ho fun u => by
      by_cases hu : u = .manager
      · subst hu
        exact hm
      · exact inside_of_workers (hsame hw) u hu
  -- locking takes the mutex, waiting and unlocking give it up
  cases h with
  | openFile f hm _ => exact hkept rfl rfl (by rw [hm]; rfl)
  | lock hm ho => exact .taken .manager ho rfl (inside_of_workers (hsame rfl))
  | wait hm _ =>
    exact .given .manager (by rw [inside, hm]; rfl) rfl rfl (inside_of_workers (hsame rfl))
  | relock hm ho => exact .taken .manager ho rfl (inside_of_workers (hsame rfl))
  | leave hm _ => exact hkept rfl rfl (by rw [hm]; rfl)
  | stopped hm _ =>
    exact .given .manager (by rw [inside, hm]; rfl) rfl rfl (inside_of_workers (hsame rfl))
  | put hm _ => exact hkept rfl rfl (by rw [hm]; rfl)
  | signal hm hsig =>
    exact .given .manager (by rw [inside, hm]; rfl) rfl rfl
      (inside_of_workers fun i => signalNotEmpty_inside hsig i)
  | finish hm => exact hkept rfl rfl (by rw [hm]; rfl)
  | lockDone hm ho => exact .taken .manager ho rfl (inside_of_workers (hsame rfl))
  | done hm =>
    exact .given .manager (by rw [inside, hm]; rfl) rfl rfl
      (inside_of_workers fun i => broadcast_inside s i)

theorem workerStep_ownership {i : Nat} (h : WorkerStep c i s s') : Ownership s s' := by
  have hself : ∀ w, ((s.setWorker i w).workers i).holds = w.holds :=
    fun w => congrArg WorkerAt.holds (setWorker_self s i w)
  cases h with
  | lock _ ho => exact .taken (.worker i) ho rfl (inside_of_worker rfl rfl rfl)
  | wait hw _ =>
    exact .given (.worker i) (by rw [inside, hw]; rfl) rfl (hself _) (inside_of_worker rfl rfl rfl)
  | relock _ ho => exact .taken (.worker i) ho rfl (inside_of_worker rfl rfl rfl)
  | leave hw _ => exact .kept rfl (inside_of_inner rfl rfl (by rw [hw]; rfl))
  | quit hw _ =>
    exact .given (.worker i) (by rw [inside, hw]; rfl) rfl (hself _) (inside_of_worker rfl rfl rfl)
  | take hw _ => exact .kept rfl (inside_of_inner rfl rfl (by rw [hw]; rfl))
  | signal hw =>
    refine .given (.worker i) (by rw [inside, hw]; rfl) rfl ?_ ?_
    · exact congrArg WorkerAt.holds (setWorker_self _ _ _)
    · exact inside_of_worker (signalNotFull_manager s) (signalNotFull_workers s) rfl
  | copied _ hw => exact .kept rfl (inside_of_inner rfl rfl (by rw [hw]; rfl))
  | lockCount _ ho => exact .taken (.worker i) ho rfl (inside_of_worker rfl rfl rfl)
  | counted hw =>
    exact .given (.worker i) (by rw [inside, hw]; rfl) rfl (hself _) (inside_of_worker rfl rfl rfl)
  | returned hw _ => exact .kept rfl (inside_of_inner rfl rfl (by rw [hw]; rfl))
  | arrive hw _ => exact .kept rfl (inside_of_inner rfl rfl (by rw [hw]; rfl))
  | pass hw _ => exact .kept rfl (inside_of_inner rfl rfl (by rw [hw]; rfl))

theorem step_ownership (h : Step c s l s') : Ownership s s' := by
  cases h with
  | sigint => exact .kept rfl fun u => by cases u <;> rfl
  | manager hm => exact managerStep_ownership hm
  | worker _ hw => exact workerStep_ownership hw
  | spuriousManager hm =>
    refine .kept rfl fun u => ?_
    cases u with
    | manager => rw [inside, inside, hm]; rfl
    | worker i => rfl
  | spuriousWorker _ hw => exact .kept rfl (inside_of_inner rfl rfl (by rw [hw]; rfl))

/-! ## §2. The loop tests. -/

/-- A thread past its loop test: the manager has room or `stop` is set; a worker has an entry, or
    is about to leave. -/
structure Guards (c : Config) (s : State) : Prop where
  room : ∀ f, s.manager = .tested f →
    s.stop = true ∨ s.file_buffer.count ≠ c.buffer_size
  ready : ∀ i, s.workers i = .tested →
    s.file_buffer.count ≠ 0 ∨ s.file_buffer.done = true ∨ s.stop = true

theorem room_of_leave (h : ¬ s.full c) :
    s.stop = true ∨ s.file_buffer.count ≠ c.buffer_size := by
  unfold State.full at h
  by_cases hs : s.stop = true
  · exact .inl hs
  · exact .inr fun hc => h ⟨hc, by simpa using hs⟩

theorem ready_of_leave (h : ¬ s.idle) :
    s.file_buffer.count ≠ 0 ∨ s.file_buffer.done = true ∨ s.stop = true := by
  unfold State.idle at h
  by_cases hc : s.file_buffer.count = 0
  · right
    by_contra hcon
    rw [not_or] at hcon
    exact h ⟨hc, by simpa using hcon.1, by simpa using hcon.2⟩
  · exact .inl hc

theorem signalNotEmpty_frame (h : SignalNotEmpty c s s') :
    s'.file_buffer = s.file_buffer ∧ s'.stop = s.stop ∧ s'.enqueued = s.enqueued
      ∧ s'.taken = s.taken ∧ ∀ i w, s'.workers i = w → w ≠ .woken → s.workers i = w := by
  cases h with
  | @wake j _ hw =>
    refine ⟨rfl, rfl, rfl, rfl, fun i w hi hne => ?_⟩
    by_cases hij : i = j
    · subst hij
      rw [setWorker_self] at hi
      exact absurd hi.symm hne
    · rwa [setWorker_of_ne s _ hij] at hi
  | nobody _ => exact ⟨rfl, rfl, rfl, rfl, fun i w hi _ => hi⟩

theorem broadcast_frame (s : State) {i : Nat} {w : WorkerAt}
    (h : s.broadcastNotEmpty.workers i = w) (hne : w ≠ .woken) : s.workers i = w := by
  unfold State.broadcastNotEmpty at h
  simp only at h
  cases hw : s.workers i with
  | waiting =>
    rw [hw] at h
    exact absurd h.symm hne
  | _ =>
    rw [hw] at h
    exact h

/-- Guards survive a step that leaves the ring alone and moves nobody past its test. -/
theorem Guards.frame (hg : Guards c s) (hb : s'.file_buffer = s.file_buffer)
    (hstop : s.stop = true → s'.stop = true)
    (hm : ∀ f, s'.manager = .tested f → s.manager = .tested f)
    (hw : ∀ i, s'.workers i = .tested → s.workers i = .tested) : Guards c s' where
  room f h := by
    rw [hb]
    exact (hg.room f (hm f h)).imp hstop id
  ready i h := by
    rw [hb]
    exact (hg.ready i (hw i h)).imp id (Or.imp id hstop)

theorem managerStep_guards (hx : Exclusive s) (hg : Guards c s) (h : ManagerStep c s s') :
    Guards c s' := by
  -- no worker is inside while the manager is
  have halone : s.manager.holds = true → ∀ i, s.workers i ≠ .tested := by
    intro hm i hi
    have h1 := hx .manager hm
    have h2 := hx (.worker i) (by rw [inside, hi]; rfl)
    rw [h1] at h2
    cases h2
  -- `leave` brings the manager its guard; `put` finds no worker past its test
  cases h with
  | openFile f _ _ => exact hg.frame rfl id (fun _ h => nomatch h) fun _ h => h
  | lock _ _ => exact hg.frame rfl id (fun _ h => nomatch h) fun _ h => h
  | wait _ _ => exact hg.frame rfl id (fun _ h => nomatch h) fun _ h => h
  | relock _ _ => exact hg.frame rfl id (fun _ h => nomatch h) fun _ h => h
  | leave _ hfull => exact ⟨fun _ _ => room_of_leave hfull, hg.ready⟩
  | stopped _ _ => exact hg.frame rfl id (fun _ h => nomatch h) fun _ h => h
  | put hm _ =>
    exact ⟨fun _ h => (nomatch h), fun i hi => absurd hi (halone (by rw [hm]; rfl) i)⟩
  | signal _ hsig =>
    obtain ⟨hb, hs, _, _, hw⟩ := signalNotEmpty_frame hsig
    exact hg.frame hb (fun h => hs.trans h) (fun _ h => nomatch h)
      fun i h => hw i _ h nofun
  | finish _ => exact hg.frame rfl id (fun _ h => nomatch h) fun _ h => h
  | lockDone _ _ => exact hg.frame rfl id (fun _ h => nomatch h) fun _ h => h
  | done _ => exact ⟨fun _ h => (nomatch h), fun _ _ => .inr (.inl rfl)⟩

/-- After a move of worker `i` to a place other than the test, the workers past the test were there
    before. -/
theorem tested_of_move {i j : Nat} {w : WorkerAt} (hne : w ≠ .tested)
    (h : (s.setWorker i w).workers j = .tested) : s.workers j = .tested :=
  of_setWorker (· = .tested) (fun hw => absurd hw hne) j h

theorem signalNotFull_frame (s : State) : s.signalNotFull.file_buffer = s.file_buffer
    ∧ s.signalNotFull.stop = s.stop ∧ s.signalNotFull.enqueued = s.enqueued
    ∧ s.signalNotFull.taken = s.taken
    ∧ ∀ f, s.signalNotFull.manager = .tested f → s.manager = .tested f := by
  unfold State.signalNotFull
  split
  · exact ⟨rfl, rfl, rfl, rfl, fun _ h => nomatch h⟩
  · exact ⟨rfl, rfl, rfl, rfl, fun _ h => h⟩

theorem workerStep_guards {i : Nat} (hx : Exclusive s) (hg : Guards c s)
    (h : WorkerStep c i s s') : Guards c s' := by
  have hmove : ∀ {w}, w ≠ WorkerAt.tested → ∀ j, (s.setWorker i w).workers j = .tested →
      s.workers j = .tested := fun hne _ hj => tested_of_move hne hj
  cases h with
  | lock _ _ => exact hg.frame rfl id (fun _ h => h) (hmove nofun)
  | wait _ _ => exact hg.frame rfl id (fun _ h => h) (hmove nofun)
  | relock _ _ => exact hg.frame rfl id (fun _ h => h) (hmove nofun)
  | leave _ hidle =>
    refine ⟨hg.room, fun j hj => ?_⟩
    by_cases hji : j = i
    · exact ready_of_leave hidle
    · rw [setWorker_of_ne s _ hji] at hj
      exact hg.ready j hj
  | quit _ _ => exact hg.frame rfl id (fun _ h => h) (hmove nofun)
  | take hw _ =>
    -- the taker is alone inside
    have howner := hx (.worker i) (by rw [inside, hw]; rfl)
    refine ⟨fun f hf => ?_, fun j hj => ?_⟩
    · -- not the manager
      have := hx .manager (show s.manager.holds = true by
        rw [show s.manager = .tested f from hf]; rfl)
      rw [howner] at this
      cases this
    · -- and no other worker
      have hji : j ≠ i := by
        intro heq
        subst heq
        rw [setWorker_self] at hj
        cases hj
      rw [setWorker_of_ne _ _ hji] at hj
      have := hx (.worker j) (show (s.workers j).holds = true by
        rw [show s.workers j = .tested from hj]; rfl)
      rw [howner] at this
      cases this
      exact absurd rfl hji
  | signal _ =>
    obtain ⟨hb, hs, _, _, hm⟩ := signalNotFull_frame s
    refine hg.frame hb (fun h => hs.trans h) hm fun j hj => ?_
    have := tested_of_move (s := s.signalNotFull) (w := .copying _) nofun hj
    rwa [signalNotFull_workers] at this
  | copied _ _ => exact hg.frame rfl id (fun _ h => h) (hmove nofun)
  | lockCount _ _ => exact hg.frame rfl id (fun _ h => h) (hmove nofun)
  | counted _ => exact hg.frame rfl id (fun _ h => h) (hmove nofun)
  | returned _ _ => exact hg.frame rfl id (fun _ h => h) (hmove nofun)
  | arrive _ _ => exact hg.frame rfl id (fun _ h => h) (hmove nofun)
  | pass _ _ => exact hg.frame rfl id (fun _ h => h) (hmove nofun)

theorem step_guards (hx : Exclusive s) (hg : Guards c s) (h : Step c s l s') : Guards c s' := by
  cases h with
  | sigint => exact hg.frame rfl (fun _ => rfl) (fun _ h => h) fun _ h => h
  | manager hm => exact managerStep_guards hx hg hm
  | worker _ hw => exact workerStep_guards hx hg hw
  | spuriousManager _ => exact hg.frame rfl id (fun _ h => nomatch h) fun _ h => h
  | spuriousWorker _ _ => exact hg.frame rfl id (fun _ h => h) fun _ h => tested_of_move (w := .woken) nofun h

/-! ## §3. The queue. -/

/-- The ring holds what was enqueued and not yet taken. -/
def Queued (c : Config) (s : State) : Prop :=
  ∃ q, Represents c.buffer_size s.file_buffer.toRingBuffer q
    ∧ s.enqueued = s.taken.map Prod.snd ++ q

/-- The steps that touch the ring: the manager's put and a worker's take. -/
inductive RingStep (c : Config) (s s' : State) : Prop
  | same : s'.file_buffer.toRingBuffer = s.file_buffer.toRingBuffer → s'.enqueued = s.enqueued →
      s'.taken = s.taken → RingStep c s s'
  | put (f : OpenFile) : s.manager = .tested f → s.stop = false →
      s'.file_buffer.toRingBuffer = s.file_buffer.toRingBuffer.push c.buffer_size (entryOf f) →
      s'.enqueued = s.enqueued ++ [entryOf f] → s'.taken = s.taken → RingStep c s s'
  | take (i : Nat) : i < c.num_workers → s.workers i = .tested → ¬ s.drained →
      s'.file_buffer.toRingBuffer = s.file_buffer.toRingBuffer.pop c.buffer_size →
      s'.enqueued = s.enqueued → s'.taken = s.taken ++ [(i, s.file_buffer.toRingBuffer.front)] →
      RingStep c s s'

theorem step_ring (h : Step c s l s') : RingStep c s s' := by
  cases h with
  | sigint => exact .same rfl rfl rfl
  | manager hm =>
    cases hm with
    | put hm hs => exact .put _ hm hs rfl rfl rfl
    | signal _ hsig =>
      obtain ⟨hb, _, he, ht, _⟩ := signalNotEmpty_frame hsig
      exact .same (congrArg buffer_t.toRingBuffer hb) he ht
    | _ => exact .same rfl rfl rfl
  | @worker i _ hi hw =>
    cases hw with
    | take hw hd => exact .take i hi hw hd rfl rfl rfl
    | signal _ =>
      obtain ⟨hb, _, he, ht, _⟩ := signalNotFull_frame s
      exact .same (congrArg buffer_t.toRingBuffer hb) he ht
    | _ => exact .same rfl rfl rfl
  | spuriousManager _ => exact .same rfl rfl rfl
  | spuriousWorker _ _ => exact .same rfl rfl rfl

theorem queued_step (hg : Guards c s) (hq : Queued c s) (h : Step c s l s') : Queued c s' := by
  obtain ⟨q, hrep, henq⟩ := hq
  cases step_ring h with
  | same hb he ht => exact ⟨q, by rw [hb]; exact hrep, by rw [he, ht]; exact henq⟩
  | put f hm hs hb he ht =>
    -- the guard leaves only a ring with room
    have hroom : q.length < c.buffer_size := by
      have hle := hrep.fits
      have hcount := hrep.count_eq
      rcases hg.room f hm with hstop | hne
      · rw [hs] at hstop
        cases hstop
      · have : (q.length : Int) ≠ c.buffer_size := hcount ▸ hne
        omega
    refine ⟨q ++ [entryOf f], ?_, ?_⟩
    · rw [hb]
      exact hrep.push _ hroom
    · rw [he, ht, henq, List.append_assoc]
  | take i _ hw hd hb he ht =>
    -- the guard and the failed exit test leave only a ring with an entry
    have hcount := hrep.count_eq
    have hne : s.file_buffer.count ≠ 0 := fun h0 =>
      hd ⟨h0, (hg.ready i hw).resolve_left fun h => h h0⟩
    cases q with
    | nil => exact absurd hcount hne
    | cons a q =>
      obtain ⟨hfront, hpop⟩ := hrep.pop
      refine ⟨q, by rw [hb]; exact hpop, ?_⟩
      rw [he, ht, henq, hfront, List.map_append, List.append_assoc]
      rfl

/-! ## §4. Who took what. -/

/-- Worker `i` is busy with the entry `f`. -/
def Busy (s : State) (i : Nat) (f : file_info_t) : Prop :=
  s.workers i = .signalling f ∨ s.workers i = .copying f

/-- Entries are taken by workers, and what a worker is busy with is what it took last. -/
structure Takers (c : Config) (s : State) : Prop where
  ids : ∀ p ∈ s.taken, p.1 < c.num_workers
  last : ∀ i f, Busy s i f → ∃ pre post, s.taken = pre ++ (i, f) :: post ∧ ∀ p ∈ post, p.1 ≠ i

theorem Takers.frame (ht : Takers c s) (htaken : s'.taken = s.taken)
    (hbusy : ∀ i f, Busy s' i f → Busy s i f) : Takers c s' where
  ids := by rw [htaken]; exact ht.ids
  last i f h := by rw [htaken]; exact ht.last i f (hbusy i f h)

theorem busy_of_move {i : Nat} {w : WorkerAt} (hw : ∀ f, w ≠ .signalling f ∧ w ≠ .copying f) :
    ∀ j f, Busy (s.setWorker i w) j f → Busy s j f := by
  intro j f h
  exact of_setWorker (fun w => w = .signalling f ∨ w = .copying f)
    (fun hbusy => absurd hbusy (not_or.mpr (hw f))) j h

theorem takers_managerStep (ht : Takers c s) (h : ManagerStep c s s') : Takers c s' := by
  cases h with
  | signal _ hsig =>
    obtain ⟨_, _, _, htaken, hw⟩ := signalNotEmpty_frame hsig
    exact ht.frame htaken fun i f h => h.imp (fun h => hw i _ h nofun) fun h => hw i _ h nofun
  | done _ =>
    exact ht.frame rfl fun i f h =>
      h.imp (fun h => broadcast_frame s h nofun) fun h => broadcast_frame s h nofun
  | _ => exact ht.frame rfl fun _ _ h => h

/-- Worker `i` takes the next entry. -/
theorem Takers.take {i : Nat} (ht : Takers c s) (hi : i < c.num_workers)
    (htaken : s'.taken = s.taken ++ [(i, s.next)])
    (hworkers : s'.workers = Function.update s.workers i (.signalling s.next)) : Takers c s' := by
  refine ⟨fun p hp => ?_, fun j f hj => ?_⟩
  · rw [htaken] at hp
    rcases List.mem_append.mp hp with hp | hp
    · exact ht.ids p hp
    · rw [List.mem_singleton.mp hp]
      exact hi
  · unfold Busy at hj
    rw [hworkers] at hj
    rw [htaken]
    by_cases hji : j = i
    · -- the entry just read
      subst hji
      rw [Function.update_self] at hj
      rcases hj with hj | hj
      · cases hj
        exact ⟨s.taken, [], rfl, fun _ h => absurd h List.not_mem_nil⟩
      · cases hj
    · -- another worker's last entry stays its last one
      rw [Function.update_of_ne hji] at hj
      obtain ⟨pre, post, heq, hpost⟩ := ht.last j f hj
      refine ⟨pre, post ++ [(i, s.next)], ?_, fun p hp => ?_⟩
      · rw [heq, List.append_assoc, List.cons_append]
      · rcases List.mem_append.mp hp with hp | hp
        · exact hpost p hp
        · rw [List.mem_singleton.mp hp]
          exact fun h => hji h.symm

/-- Worker `i` goes on with the entry it took. -/
theorem busy_of_copying {i : Nat} {f : file_info_t} (hw : s.workers i = .signalling f)
    (j : Nat) (g : file_info_t) (h : Busy (s.setWorker i (.copying f)) j g) : Busy s j g := by
  refine of_setWorker (fun w => w = .signalling g ∨ w = .copying g) (fun hbusy => ?_) j h
  rcases hbusy with hbusy | hbusy
  · cases hbusy
  · cases hbusy
    exact .inl hw

theorem takers_workerStep {i : Nat} (hi : i < c.num_workers) (ht : Takers c s)
    (h : WorkerStep c i s s') : Takers c s' := by
  cases h with
  | take _ _ => exact ht.take hi rfl rfl
  | @signal f hw =>
    obtain ⟨_, _, _, htaken, _⟩ := signalNotFull_frame s
    have hworkers : s.signalNotFull.workers = s.workers := signalNotFull_workers s
    refine ht.frame htaken fun j g hj => ?_
    refine busy_of_copying hw j g ?_
    unfold Busy State.setWorker at hj ⊢
    rw [← hworkers]
    exact hj
  | lock _ _ => exact ht.frame rfl (busy_of_move fun _ => ⟨nofun, nofun⟩)
  | wait _ _ => exact ht.frame rfl (busy_of_move fun _ => ⟨nofun, nofun⟩)
  | relock _ _ => exact ht.frame rfl (busy_of_move fun _ => ⟨nofun, nofun⟩)
  | leave _ _ => exact ht.frame rfl (busy_of_move fun _ => ⟨nofun, nofun⟩)
  | quit _ _ => exact ht.frame rfl (busy_of_move fun _ => ⟨nofun, nofun⟩)
  | copied _ _ => exact ht.frame rfl (busy_of_move fun _ => ⟨nofun, nofun⟩)
  | lockCount _ _ => exact ht.frame rfl (busy_of_move fun _ => ⟨nofun, nofun⟩)
  | counted _ => exact ht.frame rfl (busy_of_move fun _ => ⟨nofun, nofun⟩)
  | returned _ _ => exact ht.frame rfl (busy_of_move fun _ => ⟨nofun, nofun⟩)
  | arrive _ _ => exact ht.frame rfl (busy_of_move fun _ => ⟨nofun, nofun⟩)
  | pass _ _ => exact ht.frame rfl (busy_of_move fun _ => ⟨nofun, nofun⟩)

theorem takers_step (ht : Takers c s) (h : Step c s l s') : Takers c s' := by
  cases h with
  | manager hm => exact takers_managerStep ht hm
  | worker hi hw => exact takers_workerStep hi ht hw
  | spuriousWorker _ _ => exact ht.frame rfl (busy_of_move fun _ => ⟨nofun, nofun⟩)
  | _ => exact ht.frame rfl fun _ _ h => h

/-! ## §5. Every run. -/

structure CopierInv (c : Config) (s : State) : Prop where
  exclusive : Exclusive s
  guards : Guards c s
  queued : Queued c s
  takers : Takers c s

theorem start_inv (c : Config) (buffer : Nat → file_info_t) : CopierInv c (start buffer) where
  exclusive := fun t h => by cases t <;> cases h
  guards := ⟨fun _ h => (nomatch h), fun _ h => (nomatch h)⟩
  queued := ⟨[], .empty c.size_pos buffer, rfl⟩
  takers := ⟨fun _ h => absurd h List.not_mem_nil, fun _ _ h => by rcases h with h | h <;> cases h⟩

theorem copierInv_reachable (hs : (copierSystem c).Reachable s) : CopierInv c s := by
  refine hs.invariant ?_ ?_
  · intro s hinit
    obtain ⟨buffer, rfl⟩ := hinit
    exact start_inv c buffer
  · intro s l s' hinv hst
    exact ⟨(step_ownership hst).exclusive hinv.exclusive,
      step_guards hinv.exclusive hinv.guards hst, queued_step hinv.guards hinv.queued hst,
      takers_step hinv.takers hst⟩

/-- The ring is a FIFO queue: the indices are consistent and inside the array; the `count` slots from
    `out` on are the entries enqueued and not yet taken, in order; the entries taken, each by one
    worker, are the first ones enqueued; and what a worker is busy with is the entry it took last. -/
structure FifoRing (c : Config) (s : State) : Prop where
  count_nonneg : 0 ≤ s.file_buffer.count
  count_le : s.file_buffer.count ≤ c.buffer_size
  in_lt : s.file_buffer.in_ < MAX_BUFFER_SIZE
  out_lt : s.file_buffer.out < MAX_BUFFER_SIZE
  in_eq : (s.file_buffer.in_ : Int)
    = (s.file_buffer.out + s.file_buffer.count) % c.buffer_size
  pending : (s.enqueued.length : Int) = s.taken.length + s.file_buffer.count
  slots : ∀ j (h : s.taken.length + j < s.enqueued.length),
    s.file_buffer.buffer ((s.file_buffer.out + j) % c.buffer_size)
      = s.enqueued[s.taken.length + j]
  fifo : s.taken.map Prod.snd = s.enqueued.take s.taken.length
  takers : ∀ p ∈ s.taken, p.1 < c.num_workers
  busy : ∀ i f, Busy s i f → ∃ pre post, s.taken = pre ++ (i, f) :: post ∧ ∀ p ∈ post, p.1 ≠ i

/-- **The ring is a FIFO queue in every interleaving.** -/
theorem ring_is_fifo (hmax : c.buffer_size ≤ MAX_BUFFER_SIZE)
    (hs : (copierSystem c).Reachable s) : FifoRing c s := by
  obtain ⟨_, _, ⟨q, hrep, henq⟩, htakers⟩ := copierInv_reachable hs
  have hcount := hrep.count_eq
  have hfits := hrep.fits
  have hout := hrep.out_lt
  have hin := hrep.in_eq
  -- what has been enqueued is what was taken and what is in the ring
  have hlen : s.enqueued.length = s.taken.length + q.length := by
    rw [henq, List.length_append, List.length_map]
  have hin_lt : s.file_buffer.in_ < c.buffer_size := by
    rw [hin]
    exact Nat.mod_lt _ c.size_pos
  refine ⟨by omega, by omega, by omega, by omega, ?_, by omega, fun j h => ?_, ?_,
    htakers.ids, htakers.last⟩
  · rw [hin, hcount]
    norm_cast
  · -- slot `j` from `out` on is entry `j` behind the taken ones
    have hj : j < q.length := by omega
    rw [hrep.slots j hj]
    simp only [henq]
    rw [List.getElem_append_right (by rw [List.length_map]; omega)]
    congr 1
    rw [List.length_map]
    omega
  · have hmap : (s.taken.map Prod.snd).length = s.taken.length := List.length_map ..
    rw [henq, List.take_append_of_le_length (Nat.le_of_eq hmap.symm),
        List.take_of_length_le (Nat.le_of_eq hmap)]

/-- Two slots, three workers, with the barrier. -/
def twoSlots : Config := ⟨2, 3, true, by decide, by decide⟩

def oneFile : OpenFile := ⟨3, 4, [97], [98]⟩

def otherFile : OpenFile := ⟨5, 6, [99], [100]⟩

/-- Two files have been put into the ring, and one has been taken out of it. -/
theorem wrapped_reachable : ∃ s, (copierSystem twoSlots).Reachable s
    ∧ s.enqueued = [entryOf oneFile, entryOf otherFile] ∧ s.taken = [(1, entryOf oneFile)]
    ∧ s.file_buffer.in_ = 0 ∧ s.file_buffer.out = 1 := by
  have h0 : (copierSystem twoSlots).Reachable (start fun _ => ⟨0, 0, [], []⟩) := .start ⟨_, rfl⟩
  have h1 := h0.next (.manager (.openFile oneFile rfl rfl))
  have h2 := h1.next (.manager (.lock rfl rfl))
  have h3 := h2.next (.manager (.leave rfl fun h => by cases h.1))
  have h4 := h3.next (.manager (.put rfl rfl))
  have h5 := h4.next (.manager (.signal rfl (.nobody fun _ _ h => by cases h)))
  have h6 := h5.next (.manager (.openFile otherFile rfl rfl))
  have h7 := h6.next (.manager (.lock rfl rfl))
  have h8 := h7.next (.manager (.leave rfl fun h => by cases h.1))
  have h9 := h8.next (.manager (.put rfl rfl))
  have h10 := h9.next (.manager (.signal rfl (.nobody fun _ _ h => by cases h)))
  have hrun : 1 < twoSlots.num_workers := by decide
  have h11 := h10.next (.worker hrun (.lock rfl rfl))
  have h12 := h11.next (.worker hrun (.leave rfl fun h => by cases h.1))
  have h13 := h12.next (.worker hrun (.take rfl fun h => by cases h.1))
  exact ⟨_, h13, rfl, rfl, rfl, rfl⟩

/-- The index `in` has come round. -/
theorem ring_is_fifo_wrapped : ∃ s, (copierSystem twoSlots).Reachable s ∧ FifoRing twoSlots s
    ∧ s.enqueued = [entryOf oneFile, entryOf otherFile] ∧ s.taken = [(1, entryOf oneFile)]
    ∧ s.file_buffer.in_ = 0 ∧ s.file_buffer.out = 1 := by
  obtain ⟨s, hs, henq, htaken, hin, hout⟩ := wrapped_reachable
  exact ⟨s, hs, ring_is_fifo (by decide) hs, henq, htaken, hin, hout⟩

end SystemOS.DirCopy.RingRuns
