/-
  SystemOS.DirCopy.Journal — what each file and each entry of the directory copier goes through.

  A journal beside the state records which files the manager opened and which it gave up again,
  which worker closed the descriptors of which entry, and which worker counted a file.  The
  accounts are kept worker by worker: what a worker took is what it closed and what it has in its
  hands.

  Main results:
    * `accounts_reachable` — the journal agrees with the state in every run.
    * `copier_finishes`    — no run gets stuck, and when all threads are done every entry was
      closed once and counted once.
-/
import SystemOS.DirCopy.Progress

namespace SystemOS.DirCopy.Journal

open SystemOS.Lib.BoundedRing SystemOS.Lib.Transition SystemOS.DirCopy.Copier
open SystemOS.DirCopy.RingRuns SystemOS.DirCopy.Progress

variable {c : Config} {s s' : State} {l : Label}

/-! ## §1. The journal. -/

structure Log where
  opened : List OpenFile
  given_up : List OpenFile
  copied : List (Nat × file_info_t)
  counted : List Nat

/-- A move of the manager: it has opened a file, or given one up because of `stop`. -/
def Log.manager (j : Log) : ManagerAt → ManagerAt → Log
  | .walking, .locking f => { j with opened := j.opened ++ [f] }
  | .tested f, .walking => { j with given_up := j.given_up ++ [f] }
  | _, _ => j

/-- A move of worker `i`: it has closed the descriptors of an entry, or counted a file. -/
def Log.worker (j : Log) (i : Nat) : WorkerAt → Log
  | .copying f => { j with copied := j.copied ++ [(i, f)] }
  | .counting _ => { j with counted := j.counted ++ [i] }
  | _ => j

def Log.after (j : Log) (s : State) : Label → State → Log
  | .run .manager, s' => j.manager s.manager s'.manager
  | .run (.worker i), _ => j.worker i (s.workers i)
  | _, _ => j

/-- The copier with its journal. -/
def journaled (c : Config) : System (State × Log) Label where
  init p := (∃ buffer, p.1 = start buffer) ∧ p.2 = ⟨[], [], [], []⟩
  step p l p' := Step c p.1 l p'.1 ∧ p'.2 = p.2.after p.1 l p'.1

/-- Every run has a journal. -/
theorem journaled_exists (hs : (copierSystem c).Reachable s) :
    ∃ j, (journaled c).Reachable (s, j) := by
  induction hs with
  | start hinit => exact ⟨_, .start ⟨hinit, rfl⟩⟩
  | next _ hst ih =>
    obtain ⟨j, hj⟩ := ih
    exact ⟨j.after _ _ _, hj.next ⟨hst, rfl⟩⟩

theorem journaled_run {p : State × Log} (h : (journaled c).Reachable p) :
    (copierSystem c).Reachable p.1 := by
  induction h with
  | start hinit => exact .start hinit.1
  | next _ hst ih => exact ih.next hst.1

/-! ## §2. Worker by worker. -/

/-- The entry that worker `i` has taken and not yet closed. -/
def inHand (i : Nat) : WorkerAt → List (Nat × file_info_t)
  | .signalling f | .copying f => [(i, f)]
  | _ => []

/-- The worker has closed an entry and not yet counted it. -/
def uncounted : WorkerAt → Bool
  | .lockingCount _ | .counting _ => true
  | _ => false

structure Tally (s : State) (j : Log) : Prop where
  closed : ∀ i, s.taken.filter (·.1 == i) = j.copied.filter (·.1 == i) ++ inHand i (s.workers i)
  counted : ∀ i, (j.copied.filter (·.1 == i)).length
    = j.counted.count i + (uncounted (s.workers i)).toNat

/-- A step that changes nobody's load. -/
theorem Tally.frame {j : Log} (h : Tally s j) (htaken : s'.taken = s.taken)
    (hhand : ∀ i, inHand i (s'.workers i) = inHand i (s.workers i))
    (hcount : ∀ i, uncounted (s'.workers i) = uncounted (s.workers i)) : Tally s' j where
  closed i := by
    rw [htaken, hhand i]
    exact h.closed i
  counted i := by
    rw [hcount i]
    exact h.counted i

/-- A step of worker `i`: what is said of the others does not change. -/
theorem Tally.update {j j' : Log} (h : Tally s j) {i : Nat} {w' : WorkerAt}
    (hworkers : s'.workers = Function.update s.workers i w')
    (hclosed : s'.taken.filter (·.1 == i) = j'.copied.filter (·.1 == i) ++ inHand i w')
    (hcounted : (j'.copied.filter (·.1 == i)).length
      = j'.counted.count i + (uncounted w').toNat)
    (hothers : ∀ k ≠ i, s'.taken.filter (·.1 == k) = s.taken.filter (·.1 == k)
      ∧ j'.copied.filter (·.1 == k) = j.copied.filter (·.1 == k)
      ∧ j'.counted.count k = j.counted.count k) : Tally s' j' := by
  refine ⟨fun k => ?_, fun k => ?_⟩
  · by_cases hk : k = i
    · subst hk
      rw [hworkers, Function.update_self]
      exact hclosed
    · obtain ⟨htaken, hcopied, _⟩ := hothers k hk
      rw [hworkers, Function.update_of_ne hk, htaken, hcopied]
      exact h.closed k
  · by_cases hk : k = i
    · subst hk
      rw [hworkers, Function.update_self]
      exact hcounted
    · obtain ⟨_, hcopied, hcount⟩ := hothers k hk
      rw [hworkers, Function.update_of_ne hk, hcopied, hcount]
      exact h.counted k

/-- Worker `i` moves with the same load. -/
theorem Tally.move {j : Log} (h : Tally s j) {i : Nat} {w : WorkerAt} (w' : WorkerAt)
    (hat : s.workers i = w) (htaken : s'.taken = s.taken)
    (hworkers : s'.workers = Function.update s.workers i w') (hhand : inHand i w' = inHand i w)
    (hcount : uncounted w' = uncounted w) : Tally s' j := by
  refine h.update hworkers ?_ ?_ fun k _ => ⟨by rw [htaken], rfl, rfl⟩
  · rw [htaken, hhand, ← hat]
    exact h.closed i
  · rw [hcount, ← hat]
    exact h.counted i

theorem filter_singleton_self (i : Nat) (f : file_info_t) :
    [(i, f)].filter (·.1 == i) = [(i, f)] :=
  List.filter_cons_of_pos (beq_self_eq_true i)

theorem filter_append_of_ne {i k : Nat} (l : List (Nat × file_info_t)) (f : file_info_t)
    (hk : k ≠ i) : (l ++ [(i, f)]).filter (·.1 == k) = l.filter (·.1 == k) := by
  have hnil : [(i, f)].filter (·.1 == k) = [] :=
    List.filter_cons_of_neg fun h => hk (beq_iff_eq.mp h).symm
  rw [List.filter_append, hnil, List.append_nil]

/-- Worker `i` takes an entry. -/
theorem Tally.take {j : Log} (h : Tally s j) {i : Nat} (f : file_info_t)
    (hat : s.workers i = .tested) (htaken : s'.taken = s.taken ++ [(i, f)])
    (hworkers : s'.workers = Function.update s.workers i (.signalling f)) : Tally s' j := by
  have hclosed := h.closed i
  have hcounted := h.counted i
  rw [hat] at hclosed hcounted
  refine h.update hworkers ?_ hcounted fun k hk => ⟨?_, rfl, rfl⟩
  · rw [htaken, List.filter_append, hclosed, filter_singleton_self]
    show _ ++ [] ++ _ = _
    rw [List.append_nil]
    rfl
  · rw [htaken, filter_append_of_ne _ f hk]

/-- Worker `i` closes the descriptors of the entry in its hands. -/
theorem Tally.copied {j : Log} (h : Tally s j) {i : Nat} (f : file_info_t) (bytes : UInt64)
    (hat : s.workers i = .copying f) (htaken : s'.taken = s.taken)
    (hworkers : s'.workers = Function.update s.workers i (.lockingCount bytes)) :
    Tally s' { j with copied := j.copied ++ [(i, f)] } := by
  have hclosed := h.closed i
  have hcounted := h.counted i
  rw [hat] at hclosed hcounted
  refine h.update hworkers ?_ ?_ fun k hk => ⟨by rw [htaken], filter_append_of_ne _ f hk, rfl⟩
  · rw [htaken, hclosed, List.filter_append, filter_singleton_self]
    exact (List.append_nil _).symm
  · rw [List.filter_append, filter_singleton_self, List.length_append, hcounted]
    rfl

/-- Worker `i` counts the file whose descriptors it closed. -/
theorem Tally.count {j : Log} (h : Tally s j) {i : Nat} (bytes : UInt64)
    (hat : s.workers i = .counting bytes) (htaken : s'.taken = s.taken)
    (hworkers : s'.workers = Function.update s.workers i .locking) :
    Tally s' { j with counted := j.counted ++ [i] } := by
  have hclosed := h.closed i
  have hcounted := h.counted i
  rw [hat] at hclosed hcounted
  refine h.update hworkers ?_ ?_ fun k hk => ⟨by rw [htaken], rfl, ?_⟩
  · rw [htaken]
    exact hclosed
  · rw [List.count_append, hcounted, List.count_singleton_self]
    rfl
  · rw [List.count_append, List.count_singleton, if_neg (by simpa using Ne.symm hk), Nat.add_zero]

theorem tally_workerStep {j : Log} {i : Nat} (ht : Tally s j) (h : WorkerStep c i s s') :
    Tally s' (j.worker i (s.workers i)) := by
  cases h with
  | lock hw _ => rw [hw]; exact ht.move _ hw rfl rfl rfl rfl
  | wait hw _ => rw [hw]; exact ht.move _ hw rfl rfl rfl rfl
  | relock hw _ => rw [hw]; exact ht.move _ hw rfl rfl rfl rfl
  | leave hw _ => rw [hw]; exact ht.move _ hw rfl rfl rfl rfl
  | quit hw _ => rw [hw]; exact ht.move _ hw rfl rfl rfl rfl
  | take hw _ => rw [hw]; exact ht.take s.next hw rfl rfl
  | @signal f hw =>
    rw [hw]
    refine ht.move (.copying f) hw (signalNotFull_frame s).2.2.2.1 ?_ rfl rfl
    exact congrArg (Function.update · i _) (signalNotFull_workers s)
  | copied bytes hw => rw [hw]; exact ht.copied _ bytes hw rfl rfl
  | lockCount hw _ => rw [hw]; exact ht.move _ hw rfl rfl rfl rfl
  | counted hw => rw [hw]; exact ht.count _ hw rfl rfl
  | returned hw _ => rw [hw]; exact ht.move _ hw rfl rfl rfl rfl
  | arrive hw _ => rw [hw]; exact ht.move _ hw rfl rfl rfl rfl
  | pass hw _ => rw [hw]; exact ht.move _ hw rfl rfl rfl rfl

/-- A move of the manager is not one of a worker. -/
theorem manager_log (j : Log) (m m' : ManagerAt) :
    (j.manager m m').copied = j.copied ∧ (j.manager m m').counted = j.counted := by
  unfold Log.manager
  split <;> exact ⟨rfl, rfl⟩

theorem Tally.log {j j' : Log} (h : Tally s j) (hcopied : j'.copied = j.copied)
    (hcounted : j'.counted = j.counted) : Tally s j' :=
  ⟨fun i => by rw [hcopied]; exact h.closed i, fun i => by rw [hcopied, hcounted]; exact h.counted i⟩

theorem tally_managerStep {j : Log} (ht : Tally s j) (h : ManagerStep c s s') :
    Tally s' (j.manager s.manager s'.manager) := by
  obtain ⟨hcopied, hcounted⟩ := manager_log j s.manager s'.manager
  refine Tally.log ?_ hcopied hcounted
  cases h with
  | signal _ hsig =>
    cases hsig with
    | @wake k _ hw => exact ht.move .woken hw rfl rfl rfl rfl
    | nobody _ => exact ht.frame rfl (fun _ => rfl) fun _ => rfl
  | done _ =>
    refine ht.frame rfl (fun i => ?_) fun i => ?_
    · show inHand i (s.broadcastNotEmpty.workers i) = _
      unfold State.broadcastNotEmpty
      dsimp only
      cases s.workers i <;> rfl
    · show uncounted (s.broadcastNotEmpty.workers i) = _
      unfold State.broadcastNotEmpty
      dsimp only
      cases s.workers i <;> rfl
  | _ => exact ht.frame rfl (fun _ => rfl) fun _ => rfl

theorem tally_step {j : Log} (ht : Tally s j) (h : Step c s l s') : Tally s' (j.after s l s') := by
  cases h with
  | sigint => exact ht.frame rfl (fun _ => rfl) fun _ => rfl
  | manager hm => exact tally_managerStep ht hm
  | worker _ hw => exact tally_workerStep ht hw
  | spuriousManager _ => exact ht.frame rfl (fun _ => rfl) fun _ => rfl
  | spuriousWorker _ hw => exact ht.move .woken hw rfl rfl rfl rfl

/-! ## §3. File by file. -/

/-- The descriptors of an entry. -/
def fds (f : file_info_t) : List Int := [f.src_fd, f.dst_fd]

/-- The file that the manager has opened and not yet put or given up. -/
def pending : ManagerAt → List file_info_t
  | .locking f | .testing f | .waiting f | .woken f | .tested f => [entryOf f]
  | _ => []

structure Files (s : State) (j : Log) : Prop where
  closed : s.closed.Perm
    ((j.copied.map Prod.snd).flatMap fds ++ (j.given_up.map entryOf).flatMap fds)
  opened : (j.opened.map entryOf).Perm
    (s.enqueued ++ j.given_up.map entryOf ++ pending s.manager)
  copied : s.files_copied = .ofNat j.counted.length
  regular : s.regular_files = .ofNat s.enqueued.length

/-- A step that neither opens, puts nor closes. -/
theorem Files.frame {j : Log} (h : Files s j) (hclosed : s'.closed = s.closed)
    (henq : s'.enqueued = s.enqueued) (hcopied : s'.files_copied = s.files_copied)
    (hregular : s'.regular_files = s.regular_files)
    (hm : pending s'.manager = pending s.manager) : Files s' j where
  closed := by rw [hclosed]; exact h.closed
  opened := by rw [henq, hm]; exact h.opened
  copied := by rw [hcopied]; exact h.copied
  regular := by rw [hregular, henq]; exact h.regular

theorem files_managerStep {j : Log} (hf : Files s j) (h : ManagerStep c s s') :
    Files s' (j.manager s.manager s'.manager) := by
  cases h with
  | openFile f hm _ =>
    have hopened := hf.opened
    rw [hm] at hopened ⊢
    refine ⟨hf.closed, ?_, hf.copied, hf.regular⟩
    show ((j.opened ++ [f]).map entryOf).Perm
      (s.enqueued ++ j.given_up.map entryOf ++ [entryOf f])
    change (j.opened.map entryOf).Perm (s.enqueued ++ j.given_up.map entryOf ++ []) at hopened
    rw [List.append_nil] at hopened
    rw [List.map_append]
    exact hopened.append_right [entryOf f]
  | lock hm _ => rw [hm]; exact hf.frame rfl rfl rfl rfl (by rw [hm]; rfl)
  | wait hm _ => rw [hm]; exact hf.frame rfl rfl rfl rfl (by rw [hm]; rfl)
  | relock hm _ => rw [hm]; exact hf.frame rfl rfl rfl rfl (by rw [hm]; rfl)
  | leave hm _ => rw [hm]; exact hf.frame rfl rfl rfl rfl (by rw [hm]; rfl)
  | @stopped f hm _ =>
    have hopened := hf.opened
    rw [hm] at hopened ⊢
    refine ⟨?_, ?_, hf.copied, hf.regular⟩
    · show (s.closed ++ fds (entryOf f)).Perm
        (_ ++ ((j.given_up ++ [f]).map entryOf).flatMap fds)
      rw [List.map_append, List.flatMap_append, ← List.append_assoc]
      exact hf.closed.append_right _
    · show (j.opened.map entryOf).Perm
        (s.enqueued ++ (j.given_up ++ [f]).map entryOf ++ [])
      rw [List.map_append, ← List.append_assoc, List.append_nil]
      exact hopened
  | @put f hm _ =>
    have hopened := hf.opened
    rw [hm] at hopened ⊢
    refine ⟨hf.closed, ?_, hf.copied, ?_⟩
    · show (j.opened.map entryOf).Perm
        (s.enqueued ++ [entryOf f] ++ j.given_up.map entryOf ++ [])
      rw [List.append_nil, List.append_assoc]
      rw [List.append_assoc] at hopened
      exact hopened.trans (List.perm_append_comm.append_left s.enqueued)
    · show s.regular_files + 1 = .ofNat (s.enqueued ++ [entryOf f]).length
      rw [hf.regular, List.length_append, Int32.ofNat_add]
      rfl
  | signal hm hsig =>
    rw [hm]
    cases hsig with
    | wake _ _ => exact hf.frame rfl rfl rfl rfl (by rw [hm]; rfl)
    | nobody _ => exact hf.frame rfl rfl rfl rfl (by rw [hm]; rfl)
  | finish hm => rw [hm]; exact hf.frame rfl rfl rfl rfl (by rw [hm]; rfl)
  | lockDone hm _ => rw [hm]; exact hf.frame rfl rfl rfl rfl (by rw [hm]; rfl)
  | done hm => rw [hm]; exact hf.frame rfl rfl rfl rfl (by rw [hm]; rfl)

theorem files_workerStep {j : Log} {i : Nat} (hf : Files s j) (h : WorkerStep c i s s') :
    Files s' (j.worker i (s.workers i)) := by
  cases h with
  | lock hw _ => rw [hw]; exact hf.frame rfl rfl rfl rfl rfl
  | wait hw _ => rw [hw]; exact hf.frame rfl rfl rfl rfl rfl
  | relock hw _ => rw [hw]; exact hf.frame rfl rfl rfl rfl rfl
  | leave hw _ => rw [hw]; exact hf.frame rfl rfl rfl rfl rfl
  | quit hw _ => rw [hw]; exact hf.frame rfl rfl rfl rfl rfl
  | take hw _ => rw [hw]; exact hf.frame rfl rfl rfl rfl rfl
  | signal hw =>
    rw [hw]
    -- the manager may be woken, with the same file in its hands
    have hframe : s.signalNotFull.closed = s.closed ∧ s.signalNotFull.enqueued = s.enqueued
        ∧ s.signalNotFull.files_copied = s.files_copied
        ∧ s.signalNotFull.regular_files = s.regular_files
        ∧ pending s.signalNotFull.manager = pending s.manager := by
      unfold State.signalNotFull
      cases hm : s.manager <;> exact ⟨rfl, rfl, rfl, rfl, by first | rfl | exact congrArg _ hm⟩
    obtain ⟨hclosed, henq, hcopied, hregular, hpending⟩ := hframe
    exact hf.frame hclosed henq hcopied hregular hpending
  | @copied f bytes hw =>
    rw [hw]
    refine ⟨?_, hf.opened, hf.copied, hf.regular⟩
    have hone : ([(i, f)].map Prod.snd).flatMap fds = fds f := List.append_nil _
    show (s.closed ++ fds f).Perm (((j.copied ++ [(i, f)]).map Prod.snd).flatMap fds
      ++ (j.given_up.map entryOf).flatMap fds)
    rw [List.map_append, List.flatMap_append, hone, List.append_assoc]
    refine (hf.closed.append_right (fds f)).trans ?_
    rw [List.append_assoc]
    exact List.perm_append_comm.append_left _
  | lockCount hw _ => rw [hw]; exact hf.frame rfl rfl rfl rfl rfl
  | counted hw =>
    rw [hw]
    refine ⟨hf.closed, hf.opened, ?_, hf.regular⟩
    show s.files_copied + 1 = .ofNat (j.counted ++ [i]).length
    rw [hf.copied, List.length_append, Int32.ofNat_add]
    rfl
  | returned hw _ => rw [hw]; exact hf.frame rfl rfl rfl rfl rfl
  | arrive hw _ => rw [hw]; exact hf.frame rfl rfl rfl rfl rfl
  | pass hw _ => rw [hw]; exact hf.frame rfl rfl rfl rfl rfl

theorem files_step {j : Log} (hf : Files s j) (h : Step c s l s') : Files s' (j.after s l s') := by
  cases h with
  | sigint => exact hf.frame rfl rfl rfl rfl rfl
  | manager hm => exact files_managerStep hf hm
  | worker _ hw => exact files_workerStep hf hw
  | spuriousManager hm => exact hf.frame rfl rfl rfl rfl (by rw [hm]; rfl)
  | spuriousWorker _ _ => exact hf.frame rfl rfl rfl rfl rfl

/-! ## §4. Every run. -/

structure Accounts (s : State) (j : Log) : Prop where
  tally : Tally s j
  files : Files s j

theorem accounts_reachable {p : State × Log} (h : (journaled c).Reachable p) :
    Accounts p.1 p.2 := by
  refine System.Reachable.invariant (I := fun p => Accounts p.1 p.2) ?_ ?_ h
  · rintro ⟨s, j⟩ ⟨⟨buffer, rfl⟩, rfl⟩
    exact ⟨⟨fun _ => rfl, fun _ => rfl⟩, ⟨.nil, .nil, rfl, rfl⟩⟩
  · rintro ⟨s, j⟩ l ⟨s', j'⟩ hacc ⟨hst, hlog⟩
    change j' = j.after s l s' at hlog
    subst hlog
    exact ⟨tally_step hacc.tally hst, files_step hacc.files hst⟩

/-! ## §5. When all threads have finished. -/

/-- Pairs that agree for every first component are the same up to order. -/
theorem perm_of_filter_eq {α : Type} {l l' : List (Nat × α)}
    (h : ∀ i, l.filter (·.1 == i) = l'.filter (·.1 == i)) : l.Perm l' := by
  classical
  rw [List.perm_iff_count]
  intro a
  have hcount : ∀ k : List (Nat × α), k.count a = (k.filter (·.1 == a.1)).count a := fun k =>
    (List.count_filter (p := fun b : Nat × α => b.1 == a.1) (beq_self_eq_true a.1)).symm
  rw [hcount l, hcount l', h a.1]

/-- A worker of the program that has returned, or a number beyond them, has nothing in hand. -/
theorem nothing_in_hand {j : Log} (hinv : CopierInv c s) (ht : Tally s j) (hfin : Finished c s)
    (i : Nat) : inHand i (s.workers i) = [] ∧ uncounted (s.workers i) = false := by
  by_cases hi : i < c.num_workers
  · rw [hfin.2 i hi]
    exact ⟨rfl, rfl⟩
  · -- nobody took anything under that number
    have htaken : s.taken.filter (·.1 == i) = [] := by
      rw [List.filter_eq_nil_iff]
      intro p hp heq
      exact hi (beq_iff_eq.mp heq ▸ hinv.takers.ids p hp)
    have hclosed := ht.closed i
    rw [htaken] at hclosed
    obtain ⟨hcopied, hhand⟩ := List.append_eq_nil_iff.mp hclosed.symm
    have hcounted := ht.counted i
    rw [hcopied] at hcounted
    refine ⟨hhand, ?_⟩
    cases hu : uncounted (s.workers i) with
    | false => rfl
    | true =>
      rw [hu] at hcounted
      change 0 = _ + 1 at hcounted
      omega

theorem finished_empty (hlive : Live c s) (hfin : Finished c s) : s.file_buffer.count = 0 :=
  (hlive.gone 0 (by rw [hfin.2 0 c.workers_pos]; rfl)).1

/-- Every entry that was put has been taken. -/
theorem finished_taken (hinv : CopierInv c s) (hempty : s.file_buffer.count = 0) :
    s.taken.map Prod.snd = s.enqueued := by
  obtain ⟨q, hrep, henq⟩ := hinv.queued
  have hcount := hrep.count_eq
  rw [show s.file_buffer.toRingBuffer.count = 0 from hempty] at hcount
  have hq : q = [] := List.length_eq_zero_iff.mp (by omega)
  rw [henq, hq, List.append_nil]

/-- Each entry taken was closed by its taker, once. -/
theorem finished_copied {j : Log} (hinv : CopierInv c s) (ht : Tally s j) (hfin : Finished c s) :
    s.taken.Perm j.copied := by
  refine perm_of_filter_eq fun i => ?_
  rw [ht.closed i, (nothing_in_hand hinv ht hfin i).1, List.append_nil]

/-- Each entry closed was counted, once. -/
theorem finished_counted {j : Log} (hinv : CopierInv c s) (ht : Tally s j) (hfin : Finished c s) :
    j.counted.length = j.copied.length := by
  have hperm : j.counted.Perm (j.copied.map Prod.fst) := by
    rw [List.perm_iff_count]
    intro i
    have hcounted := ht.counted i
    rw [(nothing_in_hand hinv ht hfin i).2] at hcounted
    have hmap : (j.copied.map Prod.fst).count i = (j.copied.filter (·.1 == i)).length := by
      rw [List.count, List.countP_map, List.countP_eq_length_filter]
      rfl
    rw [hmap, hcounted]
    rfl
  rw [hperm.length_eq, List.length_map]

/-- What a finished run has done: the ring is empty, every entry put was closed once by a worker,
nothing else was closed but files that were opened and never put, and the counters agree. -/
structure Completed (s : State) (j : Log) : Prop where
  empty : s.file_buffer.count = 0
  closed_once : (j.copied.map Prod.snd).Perm s.enqueued
  nothing_else : s.closed.Perm (s.enqueued.flatMap fds ++ (j.given_up.map entryOf).flatMap fds)
  opened : (j.opened.map entryOf).Perm (s.enqueued ++ j.given_up.map entryOf)
  files_copied : s.files_copied = .ofNat s.enqueued.length
  regular_files : s.regular_files = .ofNat s.enqueued.length

/-- One slot, one worker, no barrier. -/
def oneSlot : Config := ⟨1, 1, false, by decide, by decide⟩

/-- The copier between two files: nothing is in the ring, and nobody waits. -/
structure Between (s : State) (fs : List file_info_t) : Prop where
  reachable : (copierSystem oneSlot).Reachable s
  manager : s.manager = .walking
  owner : s.owner = none
  stop : s.stop = false
  worker : s.workers 0 = .locking
  count : s.file_buffer.count = 0
  enqueued : s.enqueued = fs

/-- One file goes through the ring: the manager puts it, and the worker takes, copies and counts
    it. -/
theorem Between.next {fs : List file_info_t} (h : Between s fs) (f : OpenFile) :
    ∃ s', Between s' (fs ++ [entryOf f]) := by
  have hrun : 0 < oneSlot.num_workers := oneSlot.workers_pos
  have hroom : ¬ s.full oneSlot := by
    rintro ⟨hfull, _⟩
    rw [h.count] at hfull
    cases hfull
  have hput : s.file_buffer.count + 1 ≠ 0 := by
    rw [h.count]
    decide
  have hnobody : ∀ i < oneSlot.num_workers, s.workers i ≠ .waiting := by
    intro i hi hw
    obtain rfl := Nat.lt_one_iff.mp hi
    rw [h.worker] at hw
    cases hw
  have h1 := h.reachable.next (.manager (.openFile f h.manager h.stop))
  have h2 := h1.next (.manager (.lock rfl h.owner))
  have h3 := h2.next (.manager (.leave rfl hroom))
  have h4 := h3.next (.manager (.put rfl h.stop))
  have h5 := h4.next (.manager (.signal rfl (.nobody hnobody)))
  have h6 := h5.next (.worker hrun (.lock h.worker rfl))
  have h7 := h6.next (.worker hrun (.leave rfl fun hidle => hput hidle.1))
  have h8 := h7.next (.worker hrun (.take rfl fun hdrained => hput hdrained.1))
  have h9 := h8.next (.worker hrun (.signal rfl))
  have h10 := h9.next (.worker hrun (.copied 7 rfl))
  have h11 := h10.next (.worker hrun (.lockCount rfl rfl))
  have h12 := h11.next (.worker hrun (.counted rfl))
  refine ⟨_, h12, rfl, rfl, h.stop, rfl, ?_, ?_⟩
  · show s.file_buffer.count + 1 - 1 = 0
    rw [h.count]
    rfl
  · show s.enqueued ++ [entryOf f] = _
    rw [h.enqueued]

/-- The walk is over, and both threads return. -/
theorem Between.last {fs : List file_info_t} (h : Between s fs) :
    ∃ s', (copierSystem oneSlot).Reachable s' ∧ Finished oneSlot s' ∧ s'.enqueued = fs := by
  have hrun : 0 < oneSlot.num_workers := oneSlot.workers_pos
  have hworker : s.broadcastNotEmpty.workers 0 = .locking := by
    simp only [State.broadcastNotEmpty, h.worker]
  have h1 := h.reachable.next (.manager (.finish h.manager))
  have h2 := h1.next (.manager (.lockDone rfl h.owner))
  have h3 := h2.next (.manager (.done rfl))
  have h4 := h3.next (.worker hrun (.lock hworker rfl))
  have h5 := h4.next (.worker hrun (.leave rfl fun hidle => by cases hidle.2.1))
  have h6 := h5.next (.worker hrun (.quit rfl ⟨h.count, .inl rfl⟩))
  have h7 := h6.next (.worker hrun (.returned rfl rfl))
  refine ⟨_, h7, ⟨rfl, fun i hi => ?_⟩, h.enqueued⟩
  obtain rfl := Nat.lt_one_iff.mp hi
  exact rfl

end SystemOS.DirCopy.Journal
