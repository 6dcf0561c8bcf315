/-
  SystemOS.DirCopy.Progress — no thread of the directory copier is stranded.

  SIGINT sets `stop` without waking anybody, so a thread that waits has to be woken by another
  one.  What rules a deadlock out: while entries are in the ring some worker is on its way to the
  mutex (`Served`), the manager waits only for a ring that is full or a signal that is coming
  (`Awaited`), and a worker leaves for good only when nothing can be put any more (`Gone`).

  Main results:
    * `live_reachable` — these hold in every reachable state.
    * `never_stuck`    — in every reachable state some thread can step or all are finished.
-/
import SystemOS.DirCopy.RingRuns

namespace SystemOS.DirCopy.Progress

open SystemOS.Lib.BoundedRing SystemOS.Lib.Transition SystemOS.DirCopy.Copier
open SystemOS.DirCopy.RingRuns

variable {c : Config} {s s' : State} {l : Label}

/-! ## §1. Places of a worker. -/

/-- The worker has left the loop. -/
def gone : WorkerAt → Bool
  | .exited | .atBarrier | .finished => true
  | _ => false

/-- The worker is in the loop and nobody has to wake it. -/
def active : WorkerAt → Bool
  | .waiting | .exited | .atBarrier | .finished => false
  | _ => true

/-- The worker has taken an entry and is about to signal. -/
def announcing : WorkerAt → Bool
  | .signalling _ => true
  | _ => false

theorem active_of (w : WorkerAt) (hwait : w ≠ .waiting) (hgone : gone w = false) :
    active w = true := by
  cases w with
  | waiting => exact absurd rfl hwait
  | exited => cases hgone
  | atBarrier => cases hgone
  | finished => cases hgone
  | _ => rfl

/-! ## §2. The invariants. -/

/-- The owner of the mutex is a thread of the program inside a critical section. -/
def Owned (c : Config) (s : State) : Prop :=
  ∀ t, s.owner = some t → inside s t = true ∧ ∀ i, t = .worker i → i < c.num_workers

/-- While the ring is not empty, a worker is on its way, or the manager is about to wake one. -/
def Served (c : Config) (s : State) : Prop :=
  s.file_buffer.count ≠ 0 →
    s.manager = .signalling ∨ ∃ i < c.num_workers, active (s.workers i) = true

/-- The manager waits for room only while there is none, or while a worker is about to signal. -/
def Awaited (c : Config) (s : State) : Prop :=
  ∀ f, s.manager = .waiting f → s.file_buffer.count = c.buffer_size
    ∨ ∃ i < c.num_workers, announcing (s.workers i) = true

/-- `done` is set with the manager's last step, and nobody waits any more. -/
structure Done (s : State) : Prop where
  finished : s.manager = .finished ↔ s.file_buffer.done = true
  woken : s.file_buffer.done = true → ∀ i, s.workers i ≠ .waiting

/-- A worker that has left has seen the ring empty for the last time. -/
def Gone (s : State) : Prop := ∀ i, gone (s.workers i) = true →
  s.file_buffer.count = 0 ∧ (s.file_buffer.done = true ∨ s.stop = true)

/-! ## §3. The owner. -/

/-- Only the thread that locks becomes the owner. -/
theorem managerStep_takes (h : ManagerStep c s s') {t : Thread} (hnone : s.owner = none)
    (hsome : s'.owner = some t) : t = .manager ∧ inside s' .manager = true := by
  have hkept : s.owner = some t → False := fun h => Option.some_ne_none t (h.symm.trans hnone)
  cases h with
  | lock _ _ => exact ⟨(Option.some.inj hsome).symm, rfl⟩
  | relock _ _ => exact ⟨(Option.some.inj hsome).symm, rfl⟩
  | lockDone _ _ => exact ⟨(Option.some.inj hsome).symm, rfl⟩
  | openFile _ _ _ => exact (hkept hsome).elim
  | leave _ _ => exact (hkept hsome).elim
  | put _ _ => exact (hkept hsome).elim
  | finish _ => exact (hkept hsome).elim
  | wait _ _ => cases hsome
  | stopped _ _ => cases hsome
  | signal _ _ => cases hsome
  | done _ => cases hsome

theorem workerStep_takes {i : Nat} (h : WorkerStep c i s s') {t : Thread} (hnone : s.owner = none)
    (hsome : s'.owner = some t) : t = .worker i ∧ inside s' (.worker i) = true := by
  have hkept : s.owner = some t → False := fun h => Option.some_ne_none t (h.symm.trans hnone)
  have hself : ∀ w, ((s.setWorker i w).workers i).holds = w.holds :=
    fun w => congrArg WorkerAt.holds (setWorker_self s i w)
  cases h with
  | lock _ _ => exact ⟨(Option.some.inj hsome).symm, hself _⟩
  | relock _ _ => exact ⟨(Option.some.inj hsome).symm, hself _⟩
  | lockCount _ _ => exact ⟨(Option.some.inj hsome).symm, hself _⟩
  | leave _ _ => exact (hkept hsome).elim
  | take _ _ => exact (hkept hsome).elim
  | copied _ _ => exact (hkept hsome).elim
  | returned _ _ => exact (hkept hsome).elim
  | arrive _ _ => exact (hkept hsome).elim
  | pass _ _ => exact (hkept hsome).elim
  | wait _ _ => cases hsome
  | quit _ _ => cases hsome
  | signal _ => cases hsome
  | counted _ => cases hsome

theorem owned_step (ho : Owned c s) (h : Step c s l s') : Owned c s' := by
  intro t ht
  cases step_ownership h with
  | kept howner hin =>
    rw [howner] at ht
    rw [hin t]
    exact ho t ht
  | given _ _ howner _ _ =>
    rw [howner] at ht
    cases ht
  | taken u hnone howner _ =>
    cases h with
    | sigint => exact absurd (hnone.symm.trans ht) nofun
    | manager hm =>
      obtain ⟨rfl, hin⟩ := managerStep_takes hm hnone ht
      exact ⟨hin, nofun⟩
    | worker hi hw =>
      obtain ⟨rfl, hin⟩ := workerStep_takes hw hnone ht
      exact ⟨hin, fun j hj => Thread.worker.inj hj ▸ hi⟩
    | spuriousManager _ => exact absurd (hnone.symm.trans ht) nofun
    | spuriousWorker _ _ => exact absurd (hnone.symm.trans ht) nofun

/-! ## §4. Waiting workers. -/

theorem active_of_move {i : Nat} {w : WorkerAt} (hw : active w = true) (j : Nat)
    (h : active (s.workers j) = true) : active ((s.setWorker i w).workers j) = true :=
  to_setWorker (active · = true) (fun _ => hw) j h

theorem Served.frame (h : Served c s)
    (hcount : s'.file_buffer.count ≠ 0 → s.file_buffer.count ≠ 0)
    (hm : s.manager = .signalling → s'.manager = .signalling)
    (hw : ∀ i, active (s.workers i) = true → active (s'.workers i) = true) : Served c s' :=
  fun hne => (h (hcount hne)).imp hm fun ⟨i, hi, hact⟩ => ⟨i, hi, hw i hact⟩

/-- A signal that nobody receives finds all workers on their way. -/
theorem served_signal (hg : Gone s) (h : SignalNotEmpty c s s')
    (hne : s'.file_buffer.count ≠ 0) : ∃ i < c.num_workers, active (s'.workers i) = true := by
  cases h with
  | @wake i hi hw => exact ⟨i, hi, by rw [setWorker_self]; rfl⟩
  | nobody hall =>
    refine ⟨0, c.workers_pos, active_of _ (hall 0 c.workers_pos) ?_⟩
    by_contra hgone
    exact hne (hg 0 (Bool.not_eq_false _ ▸ hgone)).1

theorem served_managerStep (hs : Served c s) (hg : Gone s) (h : ManagerStep c s s') :
    Served c s' := by
  -- a manager that is elsewhere is not about to signal
  have hframe : ∀ {t : State} {m : ManagerAt}, s.manager = m → m ≠ .signalling →
      t.file_buffer = s.file_buffer → t.workers = s.workers → Served c t := by
    intro t m hm hne hb hw
    refine hs.frame (by rw [hb]; exact id) (fun h => absurd (hm.symm.trans h) hne) ?_
    intro i h
    rw [hw]
    exact h
  cases h with
  | openFile f hm _ => exact hframe hm nofun rfl rfl
  | lock hm _ => exact hframe hm nofun rfl rfl
  | wait hm _ => exact hframe hm nofun rfl rfl
  | relock hm _ => exact hframe hm nofun rfl rfl
  | leave hm _ => exact hframe hm nofun rfl rfl
  | stopped hm _ => exact hframe hm nofun rfl rfl
  | put hm _ => exact fun _ => .inl rfl
  | signal hm hsig =>
    have hserved := served_signal hg hsig
    exact fun hne => .inr (hserved hne)
  | finish hm => exact hframe hm nofun rfl rfl
  | lockDone hm _ => exact hframe hm nofun rfl rfl
  | done hm =>
    refine hs.frame id (fun h => absurd (hm.symm.trans h) nofun) fun i h => ?_
    unfold State.broadcastNotEmpty
    dsimp only
    cases hw : s.workers i <;> rw [hw] at h <;> first | rfl | exact h

theorem signalNotFull_signalling (h : s.manager = .signalling) :
    s.signalNotFull.manager = .signalling := by
  unfold State.signalNotFull
  rw [h]
  exact h

theorem served_workerStep {i : Nat} (hi : i < c.num_workers) (hs : Served c s) (hg : Gone s)
    (h : WorkerStep c i s s') : Served c s' := by
  have hleft : ∀ {w}, s.workers i = w → gone w = true → ∀ {t : State},
      t.file_buffer = s.file_buffer → Served c t := by
    intro w hw hgone t hb hne
    rw [hb] at hne
    exact absurd (hg i (hw ▸ hgone)).1 hne
  cases h with
  | lock _ _ => exact hs.frame id id (active_of_move rfl)
  | wait _ hidle => exact fun hne => absurd hidle.1 hne
  | relock _ _ => exact hs.frame id id (active_of_move rfl)
  | leave _ _ => exact hs.frame id id (active_of_move rfl)
  | quit _ hd => exact fun hne => absurd hd.1 hne
  | take _ _ => exact fun _ => .inr ⟨i, hi, by rw [setWorker_self]; rfl⟩
  | signal _ =>
    refine hs.frame ?_ signalNotFull_signalling fun j h => ?_
    · show s.signalNotFull.file_buffer.count ≠ 0 → _
      rw [(signalNotFull_frame s).1]
      exact id
    · exact active_of_move (s := s.signalNotFull) rfl j (by rw [signalNotFull_workers]; exact h)
  | copied _ _ => exact hs.frame id id (active_of_move rfl)
  | lockCount _ _ => exact hs.frame id id (active_of_move rfl)
  | counted _ => exact hs.frame id id (active_of_move rfl)
  | returned hw _ => exact hleft hw rfl rfl
  | arrive hw _ => exact hleft hw rfl rfl
  | pass hw _ => exact hleft hw rfl rfl

theorem served_step (hs : Served c s) (hg : Gone s) (h : Step c s l s') : Served c s' := by
  cases h with
  | sigint => exact hs.frame id id fun _ h => h
  | manager hm => exact served_managerStep hs hg hm
  | worker hi hw => exact served_workerStep hi hs hg hw
  | spuriousManager hm =>
    exact hs.frame id (fun h => absurd (hm.symm.trans h) nofun) fun _ h => h
  | spuriousWorker _ _ => exact hs.frame id id (active_of_move rfl)

/-! ## §5. The manager at a full ring. -/

theorem Awaited.frame (h : Awaited c s) (hb : s'.file_buffer = s.file_buffer)
    (hm : ∀ f, s'.manager = .waiting f → s.manager = .waiting f)
    (hw : ∀ i, announcing (s.workers i) = true → announcing (s'.workers i) = true) :
    Awaited c s' := by
  intro f hf
  rw [hb]
  exact (h f (hm f hf)).imp id fun ⟨i, hi, hann⟩ => ⟨i, hi, hw i hann⟩

theorem awaited_managerStep (h : ManagerStep c s s') : Awaited c s' := by
  cases h with
  | wait _ hfull => exact fun _ _ => .inl hfull.1
  | _ => exact nofun

/-- A worker that is not announcing moves: the others still are. -/
theorem announcing_of_move {i : Nat} {w w' : WorkerAt} (hat : s.workers i = w)
    (hw : announcing w = false) (j : Nat) (h : announcing (s.workers j) = true) :
    announcing ((s.setWorker i w').workers j) = true := by
  refine to_setWorker (announcing · = true) (fun hann => ?_) j h
  rw [hat, hw] at hann
  cases hann

theorem signalNotFull_not_waiting (f : OpenFile) : s.signalNotFull.manager ≠ .waiting f := by
  intro h
  unfold State.signalNotFull at h
  cases hm : s.manager <;> rw [hm] at h <;> first | cases h | (rw [hm] at h; cases h)

theorem awaited_workerStep {i : Nat} (hi : i < c.num_workers) (ha : Awaited c s)
    (h : WorkerStep c i s s') : Awaited c s' := by
  cases h with
  | lock hw _ => exact ha.frame rfl (fun _ h => h) (announcing_of_move hw rfl)
  | wait hw _ => exact ha.frame rfl (fun _ h => h) (announcing_of_move hw rfl)
  | relock hw _ => exact ha.frame rfl (fun _ h => h) (announcing_of_move hw rfl)
  | leave hw _ => exact ha.frame rfl (fun _ h => h) (announcing_of_move hw rfl)
  | quit hw _ => exact ha.frame rfl (fun _ h => h) (announcing_of_move hw rfl)
  | take _ _ => exact fun f _ => .inr ⟨i, hi, by rw [setWorker_self]; rfl⟩
  | signal _ => exact fun f hf => absurd hf (signalNotFull_not_waiting f)
  | copied _ hw => exact ha.frame rfl (fun _ h => h) (announcing_of_move hw rfl)
  | lockCount hw _ => exact ha.frame rfl (fun _ h => h) (announcing_of_move hw rfl)
  | counted hw => exact ha.frame rfl (fun _ h => h) (announcing_of_move hw rfl)
  | returned hw _ => exact ha.frame rfl (fun _ h => h) (announcing_of_move hw rfl)
  | arrive hw _ => exact ha.frame rfl (fun _ h => h) (announcing_of_move hw rfl)
  | pass hw _ => exact ha.frame rfl (fun _ h => h) (announcing_of_move hw rfl)

theorem awaited_step (ha : Awaited c s) (h : Step c s l s') : Awaited c s' := by
  cases h with
  | sigint => exact ha.frame rfl (fun _ h => h) fun _ h => h
  | manager hm => exact awaited_managerStep hm
  | worker hi hw => exact awaited_workerStep hi ha hw
  | spuriousManager _ => exact nofun
  | spuriousWorker _ hw => exact ha.frame rfl (fun _ h => h) (announcing_of_move hw rfl)

/-! ## §6. The end of the walk. -/

theorem done_managerStep (hd : Done s) (h : ManagerStep c s s') : Done s' := by
  -- a manager that steps has not finished, so `done` is not set
  have hrunning : ∀ {t : State} {m m' : ManagerAt}, s.manager = m → m ≠ .finished →
      t.manager = m' → m' ≠ .finished → t.file_buffer.done = s.file_buffer.done → Done t := by
    intro t m m' hm hne hm' hne' hdone
    have hnot : s.file_buffer.done ≠ true := fun h => hne (hm.symm.trans (hd.finished.mpr h))
    rw [← hdone] at hnot
    exact ⟨iff_of_false (fun h => hne' (hm'.symm.trans h)) hnot, fun h => absurd h hnot⟩
  cases h with
  | openFile f hm _ => exact hrunning hm nofun rfl nofun rfl
  | lock hm _ => exact hrunning hm nofun rfl nofun rfl
  | wait hm _ => exact hrunning hm nofun rfl nofun rfl
  | relock hm _ => exact hrunning hm nofun rfl nofun rfl
  | leave hm _ => exact hrunning hm nofun rfl nofun rfl
  | stopped hm _ => exact hrunning hm nofun rfl nofun rfl
  | put hm _ => exact hrunning hm nofun rfl nofun rfl
  | signal hm hsig =>
    exact hrunning hm nofun rfl nofun (congrArg buffer_t.done (signalNotEmpty_frame hsig).1)
  | finish hm => exact hrunning hm nofun rfl nofun rfl
  | lockDone hm _ => exact hrunning hm nofun rfl nofun rfl
  | done hm =>
    refine ⟨iff_of_true rfl rfl, fun _ i h => ?_⟩
    have hwait := broadcast_frame s h nofun
    unfold State.broadcastNotEmpty at h
    dsimp only at h
    rw [hwait] at h
    cases h

theorem Done.frame (hd : Done s) (hm : s'.manager = .finished ↔ s.manager = .finished)
    (hdone : s'.file_buffer.done = s.file_buffer.done)
    (hw : ∀ i, s'.workers i = .waiting → s.workers i = .waiting) : Done s' := by
  refine ⟨?_, fun h i hi => ?_⟩
  · rw [hm, hdone]
    exact hd.finished
  · exact hd.woken (hdone.symm.trans h) i (hw i hi)

theorem waiting_of_move {i : Nat} {w : WorkerAt} (hw : w ≠ .waiting) (j : Nat)
    (h : (s.setWorker i w).workers j = .waiting) : s.workers j = .waiting :=
  of_setWorker (· = .waiting) (fun hwait => absurd hwait hw) j h

theorem signalNotFull_finished :
    s.signalNotFull.manager = .finished ↔ s.manager = .finished := by
  unfold State.signalNotFull
  cases hm : s.manager with
  | waiting f => exact iff_of_false nofun nofun
  | _ => exact iff_of_eq (congrArg (· = ManagerAt.finished) hm)

theorem done_workerStep {i : Nat} (hd : Done s) (h : WorkerStep c i s s') : Done s' := by
  cases h with
  | wait _ hidle =>
    have hnot : s.file_buffer.done ≠ true := Bool.eq_false_iff.mp hidle.2.1
    exact ⟨hd.finished, fun h => absurd h hnot⟩
  | lock _ _ => exact hd.frame Iff.rfl rfl (waiting_of_move nofun)
  | relock _ _ => exact hd.frame Iff.rfl rfl (waiting_of_move nofun)
  | leave _ _ => exact hd.frame Iff.rfl rfl (waiting_of_move nofun)
  | quit _ _ => exact hd.frame Iff.rfl rfl (waiting_of_move nofun)
  | take _ _ => exact hd.frame Iff.rfl rfl (waiting_of_move nofun)
  | signal _ =>
    refine hd.frame signalNotFull_finished (congrArg buffer_t.done (signalNotFull_frame s).1) ?_
    intro j h
    have hw := waiting_of_move (s := s.signalNotFull) (w := .copying _) nofun j h
    rwa [signalNotFull_workers] at hw
  | copied _ _ => exact hd.frame Iff.rfl rfl (waiting_of_move nofun)
  | lockCount _ _ => exact hd.frame Iff.rfl rfl (waiting_of_move nofun)
  | counted _ => exact hd.frame Iff.rfl rfl (waiting_of_move nofun)
  | returned _ _ => exact hd.frame Iff.rfl rfl (waiting_of_move nofun)
  | arrive _ _ => exact hd.frame Iff.rfl rfl (waiting_of_move nofun)
  | pass _ _ => exact hd.frame Iff.rfl rfl (waiting_of_move nofun)

theorem done_step (hd : Done s) (h : Step c s l s') : Done s' := by
  cases h with
  | sigint => exact hd.frame Iff.rfl rfl fun _ h => h
  | manager hm => exact done_managerStep hd hm
  | worker _ hw => exact done_workerStep hd hw
  | spuriousManager hm =>
    exact hd.frame (iff_of_false nofun fun h => absurd (hm.symm.trans h) nofun) rfl fun _ h => h
  | spuriousWorker _ _ => exact hd.frame Iff.rfl rfl (waiting_of_move nofun)

/-! ## §7. Workers that have left. -/

theorem Gone.frame (hg : Gone s) (hb : s'.file_buffer = s.file_buffer)
    (hstop : s.stop = true → s'.stop = true)
    (hw : ∀ i, gone (s'.workers i) = true → gone (s.workers i) = true) : Gone s' := by
  intro i hi
  rw [hb]
  exact (hg i (hw i hi)).imp id (Or.imp id hstop)

theorem gone_managerStep (hd : Done s) (hg : Gone s) (h : ManagerStep c s s') : Gone s' := by
  cases h with
  | put hm hs =>
    -- whoever has left saw `done` or `stop`, and neither is set yet
    intro i hi
    have hflag := (hg i hi).2
    rw [← hd.finished, hm, hs] at hflag
    exact hflag.elim nofun nofun
  | signal _ hsig =>
    obtain ⟨hb, hs, _, _, hw⟩ := signalNotEmpty_frame hsig
    refine hg.frame hb hs.trans fun i hi => ?_
    have hwoken : ∀ w, _ = w → gone w = true → gone (s.workers i) = true := fun w h hw' => by
      rw [hw i w h (by rintro rfl; cases hw')]
      exact hw'
    exact hwoken _ rfl hi
  | done _ =>
    intro i hi
    have hwas : gone (s.workers i) = true := by
      unfold State.broadcastNotEmpty at hi
      dsimp only at hi
      cases hw : s.workers i <;> rw [hw] at hi <;> exact hi
    exact ⟨(hg i hwas).1, .inl rfl⟩
  | _ => exact hg.frame rfl id fun _ h => h

/-- A worker that moves inside the loop has not left. -/
theorem gone_of_move {i : Nat} {w : WorkerAt} (hw : gone w = true → gone (s.workers i) = true)
    (j : Nat) (h : gone ((s.setWorker i w).workers j) = true) : gone (s.workers j) = true :=
  of_setWorker (gone · = true) hw j h

theorem gone_workerStep {i : Nat} (hg : Gone s) (h : WorkerStep c i s s') : Gone s' := by
  cases h with
  | quit _ hdrained => exact fun _ _ => hdrained
  | take _ hd => exact fun j hj => absurd (hg j (gone_of_move (w := .signalling _) nofun j hj)) hd
  | signal _ =>
    obtain ⟨hb, hs, _, _, _⟩ := signalNotFull_frame s
    refine hg.frame hb hs.trans fun j h => ?_
    have hw := gone_of_move (s := s.signalNotFull) (w := .copying _) nofun j h
    rwa [signalNotFull_workers] at hw
  | returned hw _ => exact hg.frame rfl id (gone_of_move fun _ => by rw [hw]; rfl)
  | arrive hw _ => exact hg.frame rfl id (gone_of_move fun _ => by rw [hw]; rfl)
  | pass hw _ => exact hg.frame rfl id (gone_of_move fun _ => by rw [hw]; rfl)
  | lock _ _ => exact hg.frame rfl id (gone_of_move nofun)
  | wait _ _ => exact hg.frame rfl id (gone_of_move nofun)
  | relock _ _ => exact hg.frame rfl id (gone_of_move nofun)
  | leave _ _ => exact hg.frame rfl id (gone_of_move nofun)
  | copied _ _ => exact hg.frame rfl id (gone_of_move nofun)
  | lockCount _ _ => exact hg.frame rfl id (gone_of_move nofun)
  | counted _ => exact hg.frame rfl id (gone_of_move nofun)

theorem gone_step (hd : Done s) (hg : Gone s) (h : Step c s l s') : Gone s' := by
  cases h with
  | sigint => exact hg.frame rfl (fun _ => rfl) fun _ h => h
  | manager hm => exact gone_managerStep hd hg hm
  | worker _ hw => exact gone_workerStep hg hw
  | spuriousManager _ => exact hg.frame rfl id fun _ h => h
  | spuriousWorker _ _ => exact hg.frame rfl id (gone_of_move nofun)

/-! ## §8. Every reachable state. -/

structure Live (c : Config) (s : State) : Prop where
  owned : Owned c s
  served : Served c s
  awaited : Awaited c s
  done : Done s
  gone : Gone s

theorem live_reachable (hs : (copierSystem c).Reachable s) : Live c s := by
  refine hs.invariant ?_ ?_
  · rintro s ⟨buffer, rfl⟩
    exact ⟨nofun, fun h => absurd rfl h, nofun, ⟨iff_of_false nofun nofun, nofun⟩, nofun⟩
  · intro s l s' hlive hst
    exact ⟨owned_step hlive.owned hst, served_step hlive.served hlive.gone hst,
      awaited_step hlive.awaited hst, done_step hlive.done hst,
      gone_step hlive.done hlive.gone hst⟩

/-! ## §9. Some thread can step. -/

/-- The thread `t` can step. -/
def Enabled (c : Config) (s : State) (t : Thread) : Prop := ∃ s', Step c s (.run t) s'

/-- All threads that `main` joins have returned. -/
def Finished (c : Config) (s : State) : Prop :=
  s.manager = .finished ∧ ∀ i < c.num_workers, s.workers i = .finished

theorem signalNotEmpty_total (c : Config) (s : State) : ∃ s', SignalNotEmpty c s s' := by
  by_cases h : ∃ i < c.num_workers, s.workers i = .waiting
  · obtain ⟨i, hi, hw⟩ := h
    exact ⟨_, .wake hi hw⟩
  · exact ⟨_, .nobody fun i hi hw => h ⟨i, hi, hw⟩⟩

/-- Nothing stops the manager inside a critical section. -/
theorem manager_inside (h : s.manager.holds = true) : Enabled c s .manager := by
  cases hm : s.manager with
  | testing f =>
    by_cases hfull : s.full c
    · exact ⟨_, .manager (.wait hm hfull)⟩
    · exact ⟨_, .manager (.leave hm hfull)⟩
  | tested f =>
    cases hstop : s.stop with
    | true => exact ⟨_, .manager (.stopped hm hstop)⟩
    | false => exact ⟨_, .manager (.put hm hstop)⟩
  | signalling =>
    obtain ⟨s', hsig⟩ := signalNotEmpty_total c s
    exact ⟨_, .manager (.signal hm hsig)⟩
  | closing => exact ⟨_, .manager (.done hm)⟩
  | _ => rw [hm] at h; cases h

theorem worker_inside {i : Nat} (hi : i < c.num_workers) (h : (s.workers i).holds = true) :
    Enabled c s (.worker i) := by
  cases hw : s.workers i with
  | testing =>
    by_cases hidle : s.idle
    · exact ⟨_, .worker hi (.wait hw hidle)⟩
    · exact ⟨_, .worker hi (.leave hw hidle)⟩
  | tested =>
    by_cases hd : s.drained
    · exact ⟨_, .worker hi (.quit hw hd)⟩
    · exact ⟨_, .worker hi (.take hw hd)⟩
  | signalling f => exact ⟨_, .worker hi (.signal hw)⟩
  | counting bytes => exact ⟨_, .worker hi (.counted hw)⟩
  | _ => rw [hw] at h; cases h

/-- With the mutex free, a worker in the loop is stopped by a wait only. -/
theorem active_enabled {i : Nat} (hi : i < c.num_workers) (hfree : s.owner = none)
    (h : active (s.workers i) = true) : Enabled c s (.worker i) := by
  cases hw : s.workers i with
  | locking => exact ⟨_, .worker hi (.lock hw hfree)⟩
  | woken => exact ⟨_, .worker hi (.relock hw hfree)⟩
  | copying f => exact ⟨_, .worker hi (.copied 0 hw)⟩
  | lockingCount bytes => exact ⟨_, .worker hi (.lockCount hw hfree)⟩
  | waiting => rw [hw] at h; cases h
  | exited => rw [hw] at h; cases h
  | atBarrier => rw [hw] at h; cases h
  | finished => rw [hw] at h; cases h
  | _ => exact worker_inside hi (by rw [hw]; rfl)

/-- With the mutex free and nobody waiting, the workers get to their end. -/
theorem workers_enabled (hfree : s.owner = none) (hwait : ∀ i, s.workers i ≠ .waiting)
    {i : Nat} (hi : i < c.num_workers) (hnot : s.workers i ≠ .finished) :
    ∃ j, Enabled c s (.worker j) := by
  -- all but those at the barrier can step
  have hother : ∀ j < c.num_workers, s.workers j ≠ .finished → s.workers j ≠ .atBarrier →
      Enabled c s (.worker j) := by
    intro j hj hne hbar
    cases hw : s.workers j with
    | waiting => exact absurd hw (hwait j)
    | exited =>
      cases hb : c.barrier with
      | true => exact ⟨_, .worker hj (.arrive hw hb)⟩
      | false => exact ⟨_, .worker hj (.returned hw hb)⟩
    | atBarrier => exact absurd hw hbar
    | finished => exact absurd hw hne
    | _ => exact active_enabled hj hfree (by rw [hw]; rfl)
  -- the barrier opens once nobody else is left
  by_cases hall : ∀ j < c.num_workers, s.workers j = .atBarrier ∨ s.workers j = .finished
  · have hbar := (hall i hi).resolve_right hnot
    exact ⟨i, _, .worker hi (.pass hbar hall)⟩
  · push Not at hall
    obtain ⟨j, hj, hbar, hne⟩ := hall
    exact ⟨j, hother j hj hne hbar⟩

/-- **No reachable state is stuck while some thread has not finished.** -/
theorem never_stuck (hs : (copierSystem c).Reachable s) (hnot : ¬ Finished c s) :
    ∃ t, Enabled c s t := by
  have hlive := live_reachable hs
  have hinv := copierInv_reachable hs
  cases howner : s.owner with
  | some t =>
    obtain ⟨hin, hbound⟩ := hlive.owned t howner
    refine ⟨t, ?_⟩
    cases t with
    | manager => exact manager_inside hin
    | worker i => exact worker_inside (hbound i rfl) hin
  | none =>
    cases hm : s.manager with
    | walking => exact ⟨.manager, _, .manager (.finish hm)⟩
    | locking f => exact ⟨.manager, _, .manager (.lock hm howner)⟩
    | woken f => exact ⟨.manager, _, .manager (.relock hm howner)⟩
    | lockingDone => exact ⟨.manager, _, .manager (.lockDone hm howner)⟩
    | waiting f =>
      -- somebody is about to take an entry, or has just taken one
      have hactive : ∃ i < c.num_workers, active (s.workers i) = true := by
        rcases hlive.awaited f hm with hfull | ⟨i, hi, hann⟩
        · have hpos := c.size_pos
          have hne : s.file_buffer.count ≠ 0 := by omega
          exact (hlive.served hne).resolve_left fun h => absurd (hm.symm.trans h) nofun
        · refine ⟨i, hi, ?_⟩
          cases hw : s.workers i <;> rw [hw] at hann <;> first | rfl | cases hann
      obtain ⟨i, hi, hact⟩ := hactive
      exact ⟨_, active_enabled hi howner hact⟩
    | finished =>
      have hunfinished : ∃ i < c.num_workers, s.workers i ≠ .finished := by
        by_contra hall
        push Not at hall
        exact hnot ⟨hm, hall⟩
      obtain ⟨i, hi, hne⟩ := hunfinished
      obtain ⟨j, hj⟩ := workers_enabled howner (hlive.done.woken (hlive.done.finished.mp hm)) hi hne
      exact ⟨_, hj⟩
    | _ => exact ⟨_, manager_inside (by rw [hm]; rfl)⟩

end SystemOS.DirCopy.Progress
