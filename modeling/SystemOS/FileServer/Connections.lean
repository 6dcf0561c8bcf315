/-
  SystemOS.FileServer.Connections — the server process and the handlers it forks.

  The loop of `main` counts the clients it has granted in `active_clients`; each handler process
  has the copy of that variable which it had when it was forked, and the decrement at the end of a
  session acts on that copy.

  Main results:
    * `connectionInv_reachable` — the server's count is the number of clients ever granted.
    * `granted_iff_room`        — a request is granted exactly when there is room, unless the server
      has granted its maximum and one of those clients has left.
-/
import SystemOS.Lib.Transition
import SystemOS.FileServer.Responses

namespace SystemOS.FileServer.Connections

open SystemOS.Lib.Lines SystemOS.Lib.Transition
open SystemOS.FileServer.FileRequests (text)
open SystemOS.FileServer.Handler SystemOS.FileServer.Responses

/-! ## §1. The server. -/

inductive StatusCode
  | OK | WAIT | FAIL
  deriving DecidableEq, Repr

/-- How the loop of a handler process stands. -/
inductive Status
  | serving | departed | crashed
  deriving DecidableEq, Repr

/-- A handler process, with its copy of the globals. -/
structure Process where
  cl_pid : Nat
  mem : Memory
  status : Status

/-- The server process and the handlers forked so far, oldest first. -/
structure Server where
  running : Bool
  mem : Memory
  handlers : List Process

/-- What `main` answers to a connection request, and its globals afterwards. -/
def answerRequest (max_client_count : Int) (mem : Memory) (req : Request) : StatusCode × Memory :=
  if mem.active_clients ≥ max_client_count then
    (if cstr req.command = text "connect" then .WAIT else .FAIL, mem)
  else
    (.OK,
      { client_pids :=
          if mem.active_clients < max_client_count then
            Function.update mem.client_pids mem.active_clients.toNat req.cl_pid
          else mem.client_pids
        active_clients := mem.active_clients + 1 })

/-- One turn of the loop of `main`; when `fork` fails the server exits. -/
def connect (max_client_count : Int) (s : Server) (req : Request) (forks : Bool) : Server :=
  let (code, mem) := answerRequest max_client_count s.mem req
  if code = .OK then
    if forks then { s with mem := mem, handlers := s.handlers ++ [⟨req.cl_pid, mem, .serving⟩] }
    else { s with mem := mem, running := false }
  else { s with mem := mem }

/-- The handler process after a turn of its loop; it exits when the loop ends. -/
def Process.after (h : Process) : Turn → Process
  | .crashed => { h with status := .crashed }
  | .broken mem => { h with mem := mem, status := .departed }
  | .replied _ done mem _ => { h with mem := mem, status := if done then .departed else .serving }

/-- The processes that a turn sends SIGINT to. -/
def signals : Turn → List Nat
  | .replied _ _ _ signalled => signalled
  | _ => []

inductive Event
  | request (req : Request) (forks : Bool)
  | command (i : Nat) (w : World) (req : Request) (message : Bytes)

/-- A step of the server, or of the `i`-th handler on a command of its client. -/
inductive Step (dir_name : Bytes) (server_pid : Nat) (max_client_count : Int) (s : Server) :
    Event → Server → Prop
  | request {req : Request} {forks : Bool} : s.running = true →
      Step dir_name server_pid max_client_count s (.request req forks)
        (connect max_client_count s req forks)
  | command {i : Nat} {w : World} {req : Request} {message : Bytes} {h : Process} {turn : Turn} :
      s.handlers[i]? = some h → h.status = .serving →
      turn = handleRequest w dir_name server_pid h.mem req message →
      Step dir_name server_pid max_client_count s (.command i w req message)
        { s with
          handlers := s.handlers.set i (h.after turn)
          running := s.running && !(decide (server_pid ∈ signals turn) && w.kill server_pid) }

/-- The server after it has started; `client_pids` is not initialised. -/
def fileServer (dir_name : Bytes) (server_pid : Nat) (max_client_count : Int) :
    System Server Event where
  init s := ∃ pids, s = ⟨true, ⟨pids, 0⟩, []⟩
  step := Step dir_name server_pid max_client_count

/-! ## §2. Who is connected. -/

/-- The clients granted in the history of the server, -/
def granted (s : Server) : Nat := s.handlers.length

/-- those that have left by `quit` or `killServer`, -/
def departed (s : Server) : Nat := s.handlers.countP (·.status = .departed)

/-- and those that have not. -/
def connected (s : Server) : Nat := s.handlers.countP (·.status ≠ .departed)

theorem connected_add_departed (s : Server) : connected s + departed s = granted s := by
  unfold connected departed granted
  rw [Nat.add_comm, List.length_eq_countP_add_countP (p := fun h : Process => h.status = .departed)]
  congr 2
  funext h
  simp

theorem answerRequest_eq_ok_iff {max_client_count : Int} {mem : Memory} {req : Request} :
    (answerRequest max_client_count mem req).1 = .OK ↔ mem.active_clients < max_client_count := by
  unfold answerRequest
  by_cases hfull : mem.active_clients ≥ max_client_count
  · rw [if_pos hfull]
    refine ⟨fun hok => ?_, fun hroom => absurd hfull (not_le.mpr hroom)⟩
    simp only at hok
    split at hok <;> cases hok
  · rw [if_neg hfull]
    exact ⟨fun _ => not_le.mp hfull, fun _ => rfl⟩

/-- A request is refused and nothing changes, or it is granted and counted. -/
theorem connect_cases (max_client_count : Int) (s : Server) (req : Request) (forks : Bool) :
    s.mem.active_clients ≥ max_client_count ∧ connect max_client_count s req forks = s
      ∨ s.mem.active_clients < max_client_count ∧ ∃ mem,
          mem.active_clients = s.mem.active_clients + 1
          ∧ connect max_client_count s req forks
            = if forks then { s with mem := mem, handlers := s.handlers ++ [⟨req.cl_pid, mem, .serving⟩] }
              else { s with mem := mem, running := false } := by
  unfold connect
  by_cases hfull : s.mem.active_clients ≥ max_client_count
  · left
    refine ⟨hfull, ?_⟩
    have hcode : (answerRequest max_client_count s.mem req).1 ≠ .OK := fun hok =>
      absurd hfull (not_le.mpr (answerRequest_eq_ok_iff.mp hok))
    simp only [if_neg hcode]
    unfold answerRequest
    rw [if_pos hfull]
  · right
    have hcode : (answerRequest max_client_count s.mem req).1 = .OK :=
      answerRequest_eq_ok_iff.mpr (not_le.mp hfull)
    refine ⟨not_le.mp hfull, (answerRequest max_client_count s.mem req).2, ?_, by simp only [if_pos hcode]⟩
    unfold answerRequest
    rw [if_neg hfull]

/-- The server counts the clients it has granted, and grants no more than its maximum. -/
structure ConnectionInv (max_client_count : Int) (s : Server) : Prop where
  count : s.running = true → s.mem.active_clients = granted s
  bound : granted s ≤ max_client_count.toNat

variable {dir_name : Bytes} {server_pid : Nat} {max_client_count : Int} {s s' : Server}

theorem connectionInv_step {e : Event} (h : ConnectionInv max_client_count s)
    (hst : Step dir_name server_pid max_client_count s e s') :
    ConnectionInv max_client_count s' := by
  cases hst with
  | @request req forks hrun =>
    have hcount := h.count hrun
    have hbound := h.bound
    rcases connect_cases max_client_count s req forks with ⟨_, heq⟩ | ⟨hroom, mem, hmem, heq⟩
    · rw [heq]
      exact h
    rw [heq]
    cases forks with
    | true =>
      refine ⟨fun _ => ?_, ?_⟩
      · show mem.active_clients = ((s.handlers ++ [_]).length : Int)
        rw [List.length_append, List.length_singleton, hmem, hcount]
        rfl
      · show (s.handlers ++ [_]).length ≤ max_client_count.toNat
        rw [List.length_append, List.length_singleton]
        unfold granted at hcount hbound
        omega
    | false => exact ⟨nofun, hbound⟩
  | @command i w req message p turn _ _ _ =>
    -- a handler changes only its own copy of the count
    have hgranted : (s.handlers.set i (p.after turn)).length = granted s := List.length_set
    refine ⟨fun hrun => ?_, ?_⟩
    · rw [Bool.and_eq_true] at hrun
      exact (h.count hrun.1).trans (congrArg _ hgranted.symm)
    · exact hgranted.le.trans h.bound

theorem connectionInv_reachable
    (hs : (fileServer dir_name server_pid max_client_count).Reachable s) :
    ConnectionInv max_client_count s := by
  refine hs.invariant (I := ConnectionInv max_client_count) (fun s h0 => ?_)
    fun s e s' h hst => connectionInv_step h hst
  obtain ⟨pids, rfl⟩ := h0
  exact ⟨fun _ => rfl, Nat.zero_le _⟩

/-- **Capacity.**  In every state of every run, the server grants a connection request exactly when
    fewer than `max_client_count` clients are connected, if and only if it has granted fewer than
    `max_client_count` requests so far or none of the granted clients has left. -/
theorem granted_iff_room (hs : (fileServer dir_name server_pid max_client_count).Reachable s)
    (hrun : s.running = true) (req : Request) :
    ((answerRequest max_client_count s.mem req).1 = .OK ↔ (connected s : Int) < max_client_count)
      ↔ ((granted s : Int) < max_client_count ∨ departed s = 0) := by
  have hinv := connectionInv_reachable hs
  have hbound := hinv.bound
  have hsum := connected_add_departed s
  rw [answerRequest_eq_ok_iff, hinv.count hrun]
  -- granted < max against connected < max, with connected + departed = granted ≤ max
  omega

/-- A server for one client. -/
def single : System Server Event := fileServer (text "files") 1 1

def started : Server := ⟨true, ⟨fun _ => 0, 0⟩, []⟩

/-- Its only client has connected, -/
def occupied : Server := connect 1 started ⟨text "connect", 2⟩ true

/-- and left. -/
def vacated : Server :=
  { occupied with handlers := [⟨2, ⟨Function.update (fun _ => 0) 0 2, 1⟩, .departed⟩] }

theorem single_vacated : single.Reachable vacated := by
  have hstart : single.Reachable started := .start ⟨_, rfl⟩
  have hconnect : single.Reachable occupied := .next hstart (.request rfl)
  have hquit := handleRequest_quit bareWorld (text "files") 1
    ⟨Function.update (fun _ => 0) 0 2, 1⟩ ⟨text "quit", 2⟩ [] (by decide +kernel)
  have hstep : Step (text "files") 1 1 occupied (.command 0 bareWorld ⟨text "quit", 2⟩ []) _ :=
    .command (h := ⟨2, ⟨Function.update (fun _ => 0) 0 2, 1⟩, .serving⟩) rfl rfl hquit.symm
  exact .next hconnect hstep

theorem granted_iff_room_vacated :
    ((answerRequest 1 vacated.mem ⟨text "connect", 3⟩).1 = .OK ↔ (connected vacated : Int) < 1)
      ↔ ((granted vacated : Int) < 1 ∨ departed vacated = 0) :=
  granted_iff_room single_vacated rfl _

/-- The next client is told to wait, although nobody is connected. -/
theorem vacated_refuses : ¬ ∀ (dir_name : Bytes) (server_pid : Nat) (max_client_count : Int)
    (s : Server) (req : Request), 0 < max_client_count →
      (fileServer dir_name server_pid max_client_count).Reachable s → s.running = true →
      ((answerRequest max_client_count s.mem req).1 = .OK ↔ (connected s : Int) < max_client_count) := by
  intro hclaim
  have hok := (hclaim (text "files") 1 1 vacated ⟨text "connect", 3⟩ Int.one_pos single_vacated
    rfl).mpr (by decide)
  exact absurd (answerRequest_eq_ok_iff.mp hok) (by decide)

end SystemOS.FileServer.Connections
