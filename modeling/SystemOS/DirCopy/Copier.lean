/-
  SystemOS.DirCopy.Copier — the directory copier: one manager, `num_workers` workers, one ring.

  The two versions of the program share their critical sections; the later one adds a barrier at
  which the workers meet before they return (`Config.barrier`).

  A thread takes one step at a time.  The mutex has an owner, so a section of code between `lock`
  and `unlock` is a stretch of steps during which nobody else can own it; `pthread_cond_wait` gives
  the mutex up and blocks until a signal or a spurious wake-up; SIGINT may set `stop` at any step.
  Three fields of the state are history variables: what was put into the ring, what was taken out
  of it and by whom, and which descriptors were closed.
-/
import SystemOS.Lib.BoundedRing
import SystemOS.Lib.Transition

namespace SystemOS.DirCopy.Copier

open SystemOS.Lib.BoundedRing SystemOS.Lib.Transition

/-! ## §1. Data. -/

def MAX_BUFFER_SIZE : Nat := 1024

structure file_info_t where
  src_fd : Int
  dst_fd : Int
  src_name : List UInt8
  dst_name : List UInt8

/-- `strncpy` into an array of `n` bytes. -/
def strncpy (n : Nat) (s : List UInt8) : List UInt8 := (s ++ List.replicate n 0).take n

/-- The ring of the source, with the flag `done`. -/
structure buffer_t extends RingBuffer file_info_t where
  done : Bool

/-- The locals of `process_directory` for a regular file it has opened. -/
structure OpenFile where
  src_fd : Int
  dst_fd : Int
  src_path : List UInt8
  dst_path : List UInt8

/-- The arguments that `main` accepts. -/
structure Config where
  buffer_size : Nat
  num_workers : Nat
  barrier : Bool
  size_pos : 0 < buffer_size
  workers_pos : 0 < num_workers

inductive Thread
  | manager
  | worker (i : Nat)
  deriving DecidableEq, Repr

/-- Where the manager is. -/
inductive ManagerAt
  | walking
  | locking (f : OpenFile)
  | testing (f : OpenFile)
  | waiting (f : OpenFile)
  | woken (f : OpenFile)
  | tested (f : OpenFile)
  | signalling
  | lockingDone
  | closing
  | finished

/-- Where a worker is. -/
inductive WorkerAt
  | locking
  | testing
  | waiting
  | woken
  | tested
  | signalling (f : file_info_t)
  | copying (f : file_info_t)
  | lockingCount (bytes : UInt64)
  | counting (bytes : UInt64)
  | exited
  | atBarrier
  | finished

/-- The places inside a critical section. -/
def ManagerAt.holds : ManagerAt → Bool
  | .testing _ | .tested _ | .signalling | .closing => true
  | _ => false

def WorkerAt.holds : WorkerAt → Bool
  | .testing | .tested | .signalling _ | .counting _ => true
  | _ => false

structure State where
  file_buffer : buffer_t
  stop : Bool
  owner : Option Thread
  manager : ManagerAt
  workers : Nat → WorkerAt
  total_files : Int32
  regular_files : Int32
  files_copied : Int32
  total_bytes_copied : UInt64
  enqueued : List file_info_t
  taken : List (Nat × file_info_t)
  closed : List Int

/-! ## §2. The statements of the critical sections. -/

/-- The loop condition of the manager. -/
def State.full (c : Config) (s : State) : Prop :=
  s.file_buffer.count = c.buffer_size ∧ s.stop = false

/-- The loop condition of a worker. -/
def State.idle (s : State) : Prop :=
  s.file_buffer.count = 0 ∧ s.file_buffer.done = false ∧ s.stop = false

/-- The exit condition of a worker. -/
def State.drained (s : State) : Prop :=
  s.file_buffer.count = 0 ∧ (s.file_buffer.done = true ∨ s.stop = true)

/-- The entry that `process_directory` writes at `in`. -/
def entryOf (f : OpenFile) : file_info_t :=
  { src_fd := f.src_fd, dst_fd := f.dst_fd, src_name := strncpy 256 f.src_path,
    dst_name := strncpy 256 f.dst_path }

/-- The writes of `process_directory` under the mutex. -/
def enqueue (c : Config) (f : OpenFile) (s : State) : State :=
  { s with
    file_buffer := { s.file_buffer with
      buffer := Function.update s.file_buffer.buffer s.file_buffer.in_ (entryOf f)
      in_ := (s.file_buffer.in_ + 1) % c.buffer_size
      count := s.file_buffer.count + 1 }
    total_files := s.total_files + 1
    regular_files := s.regular_files + 1
    enqueued := s.enqueued ++ [entryOf f] }

/-- The entry at `out`. -/
def State.next (s : State) : file_info_t := s.file_buffer.buffer s.file_buffer.out

/-- The reads and writes of `worker_thread` under the mutex. -/
def dequeue (c : Config) (i : Nat) (s : State) : State :=
  { s with
    file_buffer := { s.file_buffer with
      out := (s.file_buffer.out + 1) % c.buffer_size
      count := s.file_buffer.count - 1 }
    taken := s.taken ++ [(i, s.next)] }

def State.setWorker (s : State) (i : Nat) (w : WorkerAt) : State :=
  { s with workers := Function.update s.workers i w }

/-- `pthread_cond_signal(&not_full)`: only the manager waits there. -/
def State.signalNotFull (s : State) : State :=
  match s.manager with
  | .waiting f => { s with manager := .woken f }
  | _ => s

/-- `pthread_cond_broadcast(&not_empty)`. -/
def State.broadcastNotEmpty (s : State) : State :=
  { s with workers := fun i => match s.workers i with
      | .waiting => .woken
      | w => w }

/-! ## §3. The steps. -/

inductive Label
  | sigint
  | run (t : Thread)
  | spurious (t : Thread)

/-- `pthread_cond_signal(&not_empty)`: some waiting worker is woken, if there is one. -/
inductive SignalNotEmpty (c : Config) (s : State) : State → Prop
  | wake {i : Nat} : i < c.num_workers → s.workers i = .waiting →
      SignalNotEmpty c s (s.setWorker i .woken)
  | nobody : (∀ i < c.num_workers, s.workers i ≠ .waiting) → SignalNotEmpty c s s

/-- The manager's program. -/
inductive ManagerStep (c : Config) (s : State) : State → Prop
  -- process_directory meets a regular file and opens both ends
  | openFile (f : OpenFile) : s.manager = .walking → s.stop = false →
      ManagerStep c s { s with manager := .locking f }
  | lock {f : OpenFile} : s.manager = .locking f → s.owner = none →
      ManagerStep c s { s with manager := .testing f, owner := some .manager }
  | wait {f : OpenFile} : s.manager = .testing f → s.full c →
      ManagerStep c s { s with manager := .waiting f, owner := none }
  | relock {f : OpenFile} : s.manager = .woken f → s.owner = none →
      ManagerStep c s { s with manager := .testing f, owner := some .manager }
  | leave {f : OpenFile} : s.manager = .testing f → ¬ s.full c →
      ManagerStep c s { s with manager := .tested f }
  | stopped {f : OpenFile} : s.manager = .tested f → s.stop = true →
      ManagerStep c s { s with
        manager := .walking, owner := none, closed := s.closed ++ [f.src_fd, f.dst_fd] }
  | put {f : OpenFile} : s.manager = .tested f → s.stop = false →
      ManagerStep c s { enqueue c f s with manager := .signalling }
  | signal {s' : State} : s.manager = .signalling → SignalNotEmpty c s s' →
      ManagerStep c s { s' with manager := .walking, owner := none }
  -- the walk is over
  | finish : s.manager = .walking → ManagerStep c s { s with manager := .lockingDone }
  | lockDone : s.manager = .lockingDone → s.owner = none →
      ManagerStep c s { s with manager := .closing, owner := some .manager }
  | done : s.manager = .closing →
      ManagerStep c s { s.broadcastNotEmpty with
        file_buffer := { s.file_buffer with done := true }, manager := .finished, owner := none }

/-- The program of worker `i`. -/
inductive WorkerStep (c : Config) (i : Nat) (s : State) : State → Prop
  | lock : s.workers i = .locking → s.owner = none →
      WorkerStep c i s { s.setWorker i .testing with owner := some (.worker i) }
  | wait : s.workers i = .testing → s.idle →
      WorkerStep c i s { s.setWorker i .waiting with owner := none }
  | relock : s.workers i = .woken → s.owner = none →
      WorkerStep c i s { s.setWorker i .testing with owner := some (.worker i) }
  | leave : s.workers i = .testing → ¬ s.idle → WorkerStep c i s (s.setWorker i .tested)
  | quit : s.workers i = .tested → s.drained →
      WorkerStep c i s { s.setWorker i .exited with owner := none }
  | take : s.workers i = .tested → ¬ s.drained →
      WorkerStep c i s ((dequeue c i s).setWorker i (.signalling s.next))
  | signal {f : file_info_t} : s.workers i = .signalling f →
      WorkerStep c i s { (s.signalNotFull).setWorker i (.copying f) with owner := none }
  -- the copy loop, and the two calls of close
  | copied {f : file_info_t} (bytes : UInt64) : s.workers i = .copying f →
      WorkerStep c i s { s.setWorker i (.lockingCount bytes) with
        closed := s.closed ++ [f.src_fd, f.dst_fd] }
  | lockCount {bytes : UInt64} : s.workers i = .lockingCount bytes → s.owner = none →
      WorkerStep c i s { s.setWorker i (.counting bytes) with owner := some (.worker i) }
  | counted {bytes : UInt64} : s.workers i = .counting bytes →
      WorkerStep c i s { s.setWorker i .locking with
        files_copied := s.files_copied + 1, total_bytes_copied := s.total_bytes_copied + bytes,
        owner := none }
  | returned : s.workers i = .exited → c.barrier = false →
      WorkerStep c i s (s.setWorker i .finished)
  | arrive : s.workers i = .exited → c.barrier = true → WorkerStep c i s (s.setWorker i .atBarrier)
  | pass : s.workers i = .atBarrier →
      (∀ j < c.num_workers, s.workers j = .atBarrier ∨ s.workers j = .finished) →
      WorkerStep c i s (s.setWorker i .finished)

inductive Step (c : Config) (s : State) : Label → State → Prop
  | sigint : Step c s .sigint { s with stop := true }
  | manager {s' : State} : ManagerStep c s s' → Step c s (.run .manager) s'
  | worker {i : Nat} {s' : State} : i < c.num_workers → WorkerStep c i s s' →
      Step c s (.run (.worker i)) s'
  | spuriousManager {f : OpenFile} : s.manager = .waiting f →
      Step c s (.spurious .manager) { s with manager := .woken f }
  | spuriousWorker {i : Nat} : i < c.num_workers → s.workers i = .waiting →
      Step c s (.spurious (.worker i)) (s.setWorker i .woken)

/-- The state in which `main` has started the threads. -/
def start (buffer : Nat → file_info_t) : State where
  file_buffer := { buffer := buffer, in_ := 0, out := 0, count := 0, done := false }
  stop := false
  owner := none
  manager := .walking
  workers := fun _ => .locking
  total_files := 0
  regular_files := 0
  files_copied := 0
  total_bytes_copied := 0
  enqueued := []
  taken := []
  closed := []

/-- The copier under every interleaving. -/
def copierSystem (c : Config) : System State Label where
  init s := ∃ buffer, s = start buffer
  step := Step c

end SystemOS.DirCopy.Copier
