/-
  SystemOS.DirCopy.CopyLoop — the copy loop of a worker, and what the two counters say of it.

  The loop has three ways out: the end of the file, a failed `read`, and a `write` that wrote less
  than it was given.  After each of them the descriptors are closed and the file is counted.

  A ledger beside the state of the copier keeps, for each worker, the file it has copied and not
  yet counted, and the files that were counted.

  Main results:
    * `copyLoop_source` — the destination is the source exactly when the calls brought all of it.
    * `booked_reachable` — the counters agree with the ledger in every run.
    * `counted_iff`      — the files counted are complete copies, and the bytes counted the bytes
      written, exactly when no call of those copies fell short.
-/
import Mathlib.Algebra.Ring.Nat
import Mathlib.Data.UInt
import SystemOS.DirCopy.RingRuns

namespace SystemOS.DirCopy.CopyLoop

open SystemOS.Lib.Transition SystemOS.DirCopy.Copier SystemOS.DirCopy.RingRuns

/-! ## §1. The loop. -/

/-- What one turn of the loop gets from `read` and from `write`. -/
structure Round where
  bytes_read : Int
  bytes_written : Int

/-- A worker in its loop: the file behind each descriptor, and the local. -/
structure Copy where
  source : List UInt8
  offset : Nat
  dst : List UInt8
  total_bytes : UInt64

/-- Both files as `process_directory` has opened them. -/
def Copy.opened (source : List UInt8) : Copy := ⟨source, 0, [], 0⟩

/-- What `read` puts into `buffer`. -/
def Copy.buffer (k : Copy) (r : Round) : List UInt8 :=
  (k.source.drop k.offset).take r.bytes_read.toNat

/-- Both calls have returned. -/
def Copy.wrote (k : Copy) (r : Round) : Copy :=
  { k with
    offset := k.offset + r.bytes_read.toNat
    dst := k.dst ++ (k.buffer r).take r.bytes_written.toNat }

/-- The loop comes round again. -/
def Copy.next (k : Copy) (r : Round) : Copy :=
  { k.wrote r with total_bytes := k.total_bytes + .ofNat r.bytes_written.toNat }

/-- The loop of `worker_thread` on the results of its calls; `none` while it is running. -/
def copyLoop : Copy → List Round → Option Copy
  | _, [] => none
  | k, r :: rounds =>
    if 0 < r.bytes_read then
      if r.bytes_written ≠ r.bytes_read then
        some (k.wrote r)   -- perror("write"), break
      else copyLoop (k.next r) rounds
    else some k

/-- What POSIX allows: `read` fails, or brings some of what is left, and nothing only at the end
    of the file; `write` fails, or writes some of what it was given. -/
structure Allowed (k : Copy) (r : Round) : Prop where
  read : r.bytes_read = -1 ∨
    0 ≤ r.bytes_read ∧ r.bytes_read.toNat ≤ min 4096 (k.source.length - k.offset)
  eof : r.bytes_read = 0 → k.source.length ≤ k.offset
  written : 0 < r.bytes_read →
    r.bytes_written = -1 ∨ 0 ≤ r.bytes_written ∧ r.bytes_written ≤ r.bytes_read

/-- The calls of a whole loop: no round follows the one that leaves it. -/
def AllowedRun : Copy → List Round → Prop
  | _, [] => True
  | k, r :: rounds => Allowed k r ∧
      if 0 < r.bytes_read ∧ r.bytes_written = r.bytes_read then AllowedRun (k.next r) rounds
      else rounds = []

/-! ## §2. What is copied. -/

/-- The bytes that the calls of `read` brought. -/
def received (rounds : List Round) : Nat := (rounds.map (·.bytes_read.toNat)).sum

/-- No call fell short: every `write` wrote all it was given, and the calls of `read` brought
    everything behind `offset`. -/
structure Complete (source : List UInt8) (offset : Nat) (rounds : List Round) : Prop where
  writes : ∀ r ∈ rounds, 0 < r.bytes_read → r.bytes_written = r.bytes_read
  reads : offset + received rounds = source.length

/-- The destination holds what was read so far, and the local counts it. -/
structure Upto (k : Copy) : Prop where
  offset_le : k.offset ≤ k.source.length
  dst_eq : k.dst = k.source.take k.offset
  total_eq : k.total_bytes = .ofNat k.offset

variable {k k' : Copy} {r : Round} {rounds : List Round}

theorem upto_opened (source : List UInt8) : Upto (Copy.opened source) := ⟨Nat.zero_le _, rfl, rfl⟩

theorem Upto.dst_length (h : Upto k) : k.dst.length = k.offset := by
  rw [h.dst_eq, List.length_take, Nat.min_eq_left h.offset_le]

/-- What a positive `read` brings lies in the source. -/
theorem Allowed.fits (h : Allowed k r) (hu : Upto k) (hpos : 0 < r.bytes_read) :
    k.offset + r.bytes_read.toNat ≤ k.source.length := by
  have hle := hu.offset_le
  rcases h.read with hfail | ⟨-, hbound⟩
  · omega
  · have := Nat.le_trans hbound (Nat.min_le_right _ _)
    omega

/-- A round with a full write. -/
theorem Upto.next (hu : Upto k) (h : Allowed k r) (hpos : 0 < r.bytes_read)
    (hfull : r.bytes_written = r.bytes_read) : Upto (k.next r) where
  offset_le := h.fits hu hpos
  dst_eq := by
    show k.dst ++ (k.buffer r).take r.bytes_written.toNat
      = k.source.take (k.offset + r.bytes_read.toNat)
    rw [hfull, hu.dst_eq, Copy.buffer, List.take_take, Nat.min_self, List.take_add]
  total_eq := by
    show k.total_bytes + .ofNat r.bytes_written.toNat = .ofNat (k.offset + r.bytes_read.toNat)
    rw [hfull, hu.total_eq, UInt64.ofNat_add]

/-- A round that writes less leaves the destination shorter than the source. -/
theorem Upto.short (hu : Upto k) (h : Allowed k r) (hpos : 0 < r.bytes_read)
    (hshort : r.bytes_written ≠ r.bytes_read) : (k.wrote r).dst.length < k.source.length := by
  have hfits := h.fits hu hpos
  have hless : r.bytes_written.toNat < r.bytes_read.toNat := by
    rcases h.written hpos with hfail | ⟨hnonneg, hle⟩ <;> omega
  show (k.dst ++ (k.buffer r).take r.bytes_written.toNat).length < _
  rw [List.length_append, hu.dst_length, List.length_take]
  have := Nat.min_le_left r.bytes_written.toNat (k.buffer r).length
  omega

/-- A read that brings nothing behind it: everything was brought, or the read failed. -/
theorem complete_stop (hstop : ¬ 0 < r.bytes_read) :
    Complete k.source k.offset [r] ↔ k.offset = k.source.length := by
  have hzero : received [r] = 0 := by
    show r.bytes_read.toNat + 0 = 0
    omega
  constructor
  · intro h
    have := h.reads
    omega
  · intro h
    refine ⟨fun q hq hpos => ?_, by omega⟩
    rw [List.mem_singleton.mp hq] at hpos
    exact absurd hpos hstop

theorem complete_next (hfull : r.bytes_written = r.bytes_read) :
    Complete k.source k.offset (r :: rounds)
      ↔ Complete (k.next r).source (k.next r).offset rounds := by
  have hsum : received (r :: rounds) = r.bytes_read.toNat + received rounds := rfl
  constructor
  · rintro ⟨hw, hr⟩
    refine ⟨fun q hq => hw q (List.mem_cons_of_mem _ hq), ?_⟩
    show k.offset + r.bytes_read.toNat + _ = k.source.length
    omega
  · rintro ⟨hw, hr⟩
    change k.offset + r.bytes_read.toNat + _ = k.source.length at hr
    refine ⟨fun q hq hpos => ?_, by omega⟩
    rcases List.mem_cons.mp hq with rfl | hq
    · exact hfull
    · exact hw q hq hpos

/-- **What the loop leaves behind**: the destination is the source exactly when no call fell short,
    and then the local counts its bytes. -/
theorem copyLoop_source (hu : Upto k) (ha : AllowedRun k rounds)
    (h : copyLoop k rounds = some k') :
    (k'.dst = k.source ↔ Complete k.source k.offset rounds)
      ∧ (k'.dst = k.source → k'.total_bytes = .ofNat k'.dst.length) := by
  induction rounds generalizing k with
  | nil => cases h
  | cons r rounds ih =>
    obtain ⟨hr, hrest⟩ := ha
    by_cases hpos : 0 < r.bytes_read
    · by_cases hfull : r.bytes_written = r.bytes_read
      · -- once more round
        rw [if_pos ⟨hpos, hfull⟩] at hrest
        rw [copyLoop, if_pos hpos, if_neg (not_not_intro hfull)] at h
        rw [complete_next hfull]
        exact ih (hu.next hr hpos hfull) hrest h
      · -- left by the test of the write
        rw [copyLoop, if_pos hpos, if_pos hfull, Option.some.injEq] at h
        have hne : k'.dst ≠ k.source := by
          intro heq
          have hlt := hu.short hr hpos hfull
          rw [h, heq] at hlt
          exact Nat.lt_irrefl _ hlt
        refine ⟨⟨fun heq => absurd heq hne, fun hc => ?_⟩, fun heq => absurd heq hne⟩
        exact absurd (hc.writes r List.mem_cons_self hpos) hfull
    · -- left by the read
      rw [if_neg fun hboth => hpos hboth.1] at hrest
      subst hrest
      rw [copyLoop, if_neg hpos, Option.some.injEq] at h
      subst h
      rw [complete_stop hpos, hu.total_eq, hu.dst_length]
      refine ⟨⟨fun heq => ?_, fun heq => ?_⟩, fun _ => rfl⟩
      · rw [← hu.dst_length, heq]
      · rw [hu.dst_eq, heq, List.take_length]

/-! ## §3. The ledger. -/

/-- A file that a worker has been through. -/
structure Transfer where
  source : List UInt8
  rounds : List Round
  result : Copy
  allowed : AllowedRun (Copy.opened source) rounds
  ends : copyLoop (Copy.opened source) rounds = some result

/-- No call of the copy fell short. -/
def Transfer.complete (t : Transfer) : Prop := Complete t.source 0 t.rounds

theorem Transfer.dst_eq_iff (t : Transfer) : t.result.dst = t.source ↔ t.complete :=
  (copyLoop_source (upto_opened t.source) t.allowed t.ends).1

theorem Transfer.total_eq (t : Transfer) (h : t.result.dst = t.source) :
    t.result.total_bytes = .ofNat t.result.dst.length :=
  (copyLoop_source (upto_opened t.source) t.allowed t.ends).2 h

structure Ledger where
  copied : Nat → Option Transfer
  counted : List Transfer

/-- A move of worker `i`: it has been through a file, or counted one. -/
def Ledger.worker (h : Ledger) (i : Nat) (t : Transfer) : WorkerAt → Ledger
  | .copying _ => { h with copied := Function.update h.copied i (some t) }
  | .counting _ => { h with counted := h.counted ++ (h.copied i).toList }
  | _ => h

def Ledger.after (h : Ledger) (t : Transfer) (s : State) : Label → Ledger
  | .run (.worker i) => h.worker i t (s.workers i)
  | _ => h

/-- A worker that has been through the file of `t` goes on with its `total_bytes`. -/
def Copies (t : Transfer) (s : State) (l : Label) (s' : State) : Prop :=
  ∀ i f, l = .run (.worker i) → s.workers i = .copying f →
    s'.workers i = .lockingCount t.result.total_bytes

/-- The copier with its ledger. -/
def copying (c : Config) : System (State × Ledger) Label where
  init p := (∃ buffer, p.1 = start buffer) ∧ p.2 = ⟨fun _ => none, []⟩
  step p l p' := Step c p.1 l p'.1 ∧ ∃ t, Copies t p.1 l p'.1 ∧ p'.2 = p.2.after t p.1 l

/-- The number that a worker is about to add to `total_bytes_copied`. -/
def uncounted : WorkerAt → Option UInt64
  | .lockingCount bytes | .counting bytes => some bytes
  | _ => none

/-- The counters agree with the ledger. -/
structure Booked (s : State) (h : Ledger) : Prop where
  uncounted : ∀ i bytes, uncounted (s.workers i) = some bytes →
    ∃ t, h.copied i = some t ∧ t.result.total_bytes = bytes
  files_copied : s.files_copied = .ofNat h.counted.length
  total_bytes_copied : s.total_bytes_copied = (h.counted.map (·.result.total_bytes)).sum

/-! ## §4. Every run. -/

variable {c : Config} {s s' : State} {l : Label} {h : Ledger}

/-- A step that copies nothing and counts nothing. -/
theorem Booked.frame (hb : Booked s h) (hw : ∀ i, CopyLoop.uncounted (s'.workers i)
    = CopyLoop.uncounted (s.workers i)) (hfiles : s'.files_copied = s.files_copied)
    (hbytes : s'.total_bytes_copied = s.total_bytes_copied) : Booked s' h where
  uncounted i bytes hi := hb.uncounted i bytes (hw i ▸ hi)
  files_copied := by rw [hfiles]; exact hb.files_copied
  total_bytes_copied := by rw [hbytes]; exact hb.total_bytes_copied

/-- Worker `i` moves, with what it has to count. -/
theorem Booked.move (hb : Booked s h) {i : Nat} {w w' : WorkerAt} (hat : s.workers i = w)
    (hworkers : s'.workers = Function.update s.workers i w')
    (hsame : CopyLoop.uncounted w' = CopyLoop.uncounted w)
    (hfiles : s'.files_copied = s.files_copied)
    (hbytes : s'.total_bytes_copied = s.total_bytes_copied) : Booked s' h := by
  refine hb.frame (fun j => ?_) hfiles hbytes
  rw [hworkers]
  by_cases hj : j = i
  · subst hj
    rw [Function.update_self, hat, hsame]
  · rw [Function.update_of_ne hj]

/-- Worker `i` has been through a file. -/
theorem Booked.copied (hb : Booked s h) {i : Nat} (t : Transfer)
    (hworkers : s'.workers = Function.update s.workers i (.lockingCount t.result.total_bytes))
    (hfiles : s'.files_copied = s.files_copied)
    (hbytes : s'.total_bytes_copied = s.total_bytes_copied) :
    Booked s' { h with copied := Function.update h.copied i (some t) } where
  uncounted j bytes hj := by
    rw [hworkers] at hj
    by_cases hji : j = i
    · subst hji
      rw [Function.update_self] at hj
      exact ⟨t, Function.update_self .., Option.some.inj hj⟩
    · rw [Function.update_of_ne hji] at hj
      obtain ⟨u, hu, hubytes⟩ := hb.uncounted j bytes hj
      exact ⟨u, (Function.update_of_ne hji ..).trans hu, hubytes⟩
  files_copied := by rw [hfiles]; exact hb.files_copied
  total_bytes_copied := by rw [hbytes]; exact hb.total_bytes_copied

/-- Worker `i` counts the file. -/
theorem Booked.counted (hb : Booked s h) {i : Nat} {bytes : UInt64}
    (hat : s.workers i = .counting bytes)
    (hworkers : s'.workers = Function.update s.workers i .locking)
    (hfiles : s'.files_copied = s.files_copied + 1)
    (hbytes : s'.total_bytes_copied = s.total_bytes_copied + bytes) :
    Booked s' { h with counted := h.counted ++ (h.copied i).toList } := by
  obtain ⟨t, ht, htbytes⟩ := hb.uncounted i bytes (by rw [hat]; rfl)
  rw [ht]
  refine ⟨fun j b hj => ?_, ?_, ?_⟩
  · rw [hworkers] at hj
    by_cases hji : j = i
    · subst hji
      rw [Function.update_self] at hj
      cases hj
    · rw [Function.update_of_ne hji] at hj
      exact hb.uncounted j b hj
  · rw [hfiles, hb.files_copied, List.length_append, Int32.ofNat_add]
    rfl
  · rw [hbytes, hb.total_bytes_copied, List.map_append, List.sum_append]
    show _ + bytes = _ + (t.result.total_bytes + 0)
    rw [htbytes, UInt64.add_zero]

theorem booked_workerStep {i : Nat} {t : Transfer} (hb : Booked s h)
    (hcopies : Copies t s (.run (.worker i)) s') (hst : WorkerStep c i s s') :
    Booked s' (h.worker i t (s.workers i)) := by
  cases hst with
  | lock hw _ => rw [hw]; exact hb.move hw rfl rfl rfl rfl
  | wait hw _ => rw [hw]; exact hb.move hw rfl rfl rfl rfl
  | relock hw _ => rw [hw]; exact hb.move hw rfl rfl rfl rfl
  | leave hw _ => rw [hw]; exact hb.move hw rfl rfl rfl rfl
  | quit hw _ => rw [hw]; exact hb.move hw rfl rfl rfl rfl
  | take hw _ => rw [hw]; exact hb.move hw rfl rfl rfl rfl
  | @signal f hw =>
    rw [hw]
    have hframe : s.signalNotFull.files_copied = s.files_copied
        ∧ s.signalNotFull.total_bytes_copied = s.total_bytes_copied := by
      unfold State.signalNotFull
      split <;> exact ⟨rfl, rfl⟩
    have hworkers : ({ s.signalNotFull with
        workers := Function.update s.signalNotFull.workers i (.copying f) } : State).workers
        = Function.update s.workers i (.copying f) :=
      congrArg (Function.update · i _) (signalNotFull_workers s)
    exact hb.move hw hworkers rfl hframe.1 hframe.2
  | @copied f bytes hw =>
    -- the bytes are those of the transfer
    have hat := hcopies i f rfl hw
    change Function.update s.workers i (.lockingCount bytes) i = _ at hat
    rw [Function.update_self] at hat
    cases hat
    rw [hw]
    exact hb.copied t rfl rfl rfl
  | lockCount hw _ => rw [hw]; exact hb.move hw rfl rfl rfl rfl
  | counted hw => rw [hw]; exact hb.counted hw rfl rfl rfl
  | returned hw _ => rw [hw]; exact hb.move hw rfl rfl rfl rfl
  | arrive hw _ => rw [hw]; exact hb.move hw rfl rfl rfl rfl
  | pass hw _ => rw [hw]; exact hb.move hw rfl rfl rfl rfl

theorem booked_managerStep (hb : Booked s h) (hst : ManagerStep c s s') : Booked s' h := by
  cases hst with
  | signal _ hsig =>
    cases hsig with
    | wake _ hw => exact hb.move hw rfl rfl rfl rfl
    | nobody _ => exact hb.frame (fun _ => rfl) rfl rfl
  | done _ =>
    refine hb.frame (fun i => ?_) rfl rfl
    show uncounted (s.broadcastNotEmpty.workers i) = _
    unfold State.broadcastNotEmpty
    dsimp only
    cases s.workers i <;> rfl
  | _ => exact hb.frame (fun _ => rfl) rfl rfl

theorem booked_step {t : Transfer} (hb : Booked s h) (hcopies : Copies t s l s')
    (hst : Step c s l s') : Booked s' (h.after t s l) := by
  cases hst with
  | sigint => exact hb.frame (fun _ => rfl) rfl rfl
  | manager hm => exact booked_managerStep hb hm
  | worker _ hw => exact booked_workerStep hb hcopies hw
  | spuriousManager _ => exact hb.frame (fun _ => rfl) rfl rfl
  | spuriousWorker _ hw => exact hb.move hw rfl rfl rfl rfl

theorem booked_reachable {p : State × Ledger} (hp : (copying c).Reachable p) :
    Booked p.1 p.2 := by
  refine System.Reachable.invariant (I := fun p => Booked p.1 p.2) ?_ ?_ hp
  · rintro ⟨s, h⟩ ⟨⟨buffer, rfl⟩, rfl⟩
    exact ⟨fun _ _ hi => (nomatch hi), rfl, rfl⟩
  · rintro ⟨s, h⟩ l ⟨s', h'⟩ hb ⟨hst, t, hcopies, hafter⟩
    change h' = h.after t s l at hafter
    subst hafter
    exact booked_step hb hcopies hst

/-! ## §5. The counters. -/

/-- What the counters say of the files: as many as were counted, each a complete copy, and the
    bytes written to their destinations. -/
structure CountsCopies (p : State × Ledger) : Prop where
  files_copied : p.1.files_copied = .ofNat p.2.counted.length
  complete : ∀ t ∈ p.2.counted, t.result.dst = t.source
  total_bytes_copied : p.1.total_bytes_copied = .ofNat (p.2.counted.map (·.result.dst.length)).sum

/-- A sum of sizes, as a `size_t`. -/
theorem sum_ofNat (ts : List Transfer) (size : Transfer → Nat) :
    (ts.map fun t => UInt64.ofNat (size t)).sum = .ofNat (ts.map size).sum := by
  induction ts with
  | nil => rfl
  | cons t ts ih => rw [List.map_cons, List.sum_cons, ih, List.map_cons, List.sum_cons,
      UInt64.ofNat_add]

/-- **The counters count complete copies** in a state of a run exactly when, in each of the files
    counted so far, every `write` wrote all it was given and the calls of `read` brought the whole
    file. -/
theorem counted_iff {p : State × Ledger} (hp : (copying c).Reachable p) :
    CountsCopies p ↔ ∀ t ∈ p.2.counted, t.complete := by
  have hb := booked_reachable hp
  constructor
  · intro h t ht
    exact t.dst_eq_iff.mp (h.complete t ht)
  · intro h
    have hdst : ∀ t ∈ p.2.counted, t.result.dst = t.source := fun t ht =>
      t.dst_eq_iff.mpr (h t ht)
    refine ⟨hb.files_copied, hdst, ?_⟩
    rw [hb.total_bytes_copied, ← sum_ofNat]
    exact congrArg List.sum (List.map_congr_left fun t ht => t.total_eq (hdst t ht))

/-! ## §6. One file. -/

/-- A step, with the transfer that it may record. -/
theorem next_step (hp : (copying c).Reachable (s, h)) (t : Transfer) (hst : Step c s l s')
    (hcopies : Copies t s l s') : (copying c).Reachable (s', h.after t s l) :=
  hp.next ⟨hst, t, hcopies, rfl⟩

/-- A worker can go through the file of any transfer and count it. -/
theorem counted_exists (t : Transfer) : ∃ p, (copying twoSlots).Reachable p
    ∧ p.2.counted = [t] := by
  have hmanager : ∀ {s s' : State}, Copies t s (.run .manager) s' := fun _ _ hl => nomatch hl
  have h0 : (copying twoSlots).Reachable (start fun _ => ⟨0, 0, [], []⟩, ⟨fun _ => none, []⟩) :=
    .start ⟨⟨_, rfl⟩, rfl⟩
  -- the manager opens a file and puts it into the ring
  have h1 := next_step h0 t (.manager (.openFile oneFile rfl rfl)) hmanager
  have h2 := next_step h1 t (.manager (.lock rfl rfl)) hmanager
  have h3 := next_step h2 t (.manager (.leave rfl fun hfull => by cases hfull.1)) hmanager
  have h4 := next_step h3 t (.manager (.put rfl rfl)) hmanager
  have h5 := next_step h4 t (.manager (.signal rfl (.nobody fun _ _ => nofun))) hmanager
  -- worker 0 takes it
  have hrun : 0 < twoSlots.num_workers := twoSlots.workers_pos
  have h6 := next_step h5 t (.worker hrun (.lock rfl rfl)) fun _ _ hl hw => by cases hl; cases hw
  have h7 := next_step h6 t (.worker hrun (.leave rfl fun hidle => by cases hidle.1))
    fun _ _ hl hw => by cases hl; cases hw
  have h8 := next_step h7 t (.worker hrun (.take rfl fun hdrained => by cases hdrained.1))
    fun _ _ hl hw => by cases hl; cases hw
  have h9 := next_step h8 t (.worker hrun (.signal rfl)) fun _ _ hl hw => by cases hl; cases hw
  -- and copies it, and counts it
  have h10 := next_step h9 t (.worker hrun (.copied t.result.total_bytes rfl))
    fun _ _ hl _ => by cases hl; rfl
  have h11 := next_step h10 t (.worker hrun (.lockCount rfl rfl))
    fun _ _ hl hw => by cases hl; cases hw
  have h12 := next_step h11 t (.worker hrun (.counted rfl)) fun _ _ hl hw => by cases hl; cases hw
  exact ⟨_, h12, rfl⟩

/-- A file of one byte, copied whole. -/
def oneByte : Transfer where
  source := [7]
  rounds := [⟨1, 1⟩, ⟨0, 0⟩]
  result := ⟨[7], 1, [7], 1⟩
  allowed := ⟨⟨.inr (by decide), nofun, fun _ => .inr (by decide)⟩,
    ⟨.inr (by decide), fun _ => by decide, nofun⟩, rfl⟩
  ends := rfl

theorem counted_iff_oneByte : ∃ p, (copying twoSlots).Reachable p ∧ CountsCopies p := by
  obtain ⟨p, hp, hcounted⟩ := counted_exists oneByte
  refine ⟨p, hp, (counted_iff hp).mpr fun t ht => ?_⟩
  rw [hcounted, List.mem_singleton] at ht
  subst ht
  exact ⟨by decide, rfl⟩

/-- The disk is full: `write` fails. -/
def diskFull : Transfer where
  source := [7]
  rounds := [⟨1, -1⟩]
  result := ⟨[7], 1, [], 0⟩
  allowed := ⟨⟨.inr (by decide), nofun, fun _ => .inl rfl⟩, rfl⟩
  ends := rfl

/-- A file whose `write` failed is counted as copied. -/
theorem failed_write_counted : ¬ ∀ (c : Config) (p : State × Ledger),
    (copying c).Reachable p → CountsCopies p := by
  intro hclaim
  obtain ⟨p, hp, hcounted⟩ := counted_exists diskFull
  have hdst := (hclaim twoSlots p hp).complete diskFull (by rw [hcounted]; exact List.mem_singleton_self _)
  exact absurd hdst (by decide)

end SystemOS.DirCopy.CopyLoop
