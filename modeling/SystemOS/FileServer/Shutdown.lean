/-
  SystemOS.FileServer.Shutdown — whom `killServer` reaches.

  A handler signals the clients in its own `client_pids`, the copy it had when it was forked.

  Main results:
    * `snapshot_reachable`     — that copy lists the clients granted up to its own, in order.
    * `kill_signals`           — the processes that a `killServer` sends SIGINT to.
    * `kill_reaches_all_iff`   — it reaches every connected client exactly when no client granted
      later is still connected.
-/
import SystemOS.FileServer.Connections

namespace SystemOS.FileServer.Shutdown

open SystemOS.Lib.Lines SystemOS.Lib.Transition
open SystemOS.FileServer.FileRequests (text text_ne)
open SystemOS.FileServer.Handler SystemOS.FileServer.Responses SystemOS.FileServer.Connections

/-! ## §1. The copies of the globals. -/

/-- The pids of the clients granted so far, oldest first. -/
def pids (s : Server) : List Nat := s.handlers.map (·.cl_pid)

/-- The globals list the first `n` of these clients. -/
structure Snapshot (clients : List Nat) (n : Nat) (mem : Memory) : Prop where
  count : mem.active_clients = n
  listed : ∀ k < n, clients[k]? = some (mem.client_pids k)

/-- The server has them all, a handler those up to its own client. -/
structure Snapshots (s : Server) : Prop where
  server : s.running = true → Snapshot (pids s) s.handlers.length s.mem
  handler : ∀ i p, s.handlers[i]? = some p → p.status = .serving → Snapshot (pids s) (i + 1) p.mem

theorem Snapshot.append {clients : List Nat} {n : Nat} {mem : Memory} (h : Snapshot clients n mem)
    (more : List Nat) : Snapshot (clients ++ more) n mem where
  count := h.count
  listed k hk := by
    have hsome := h.listed k hk
    have hlt : k < clients.length := (List.getElem?_eq_some_iff.mp hsome).1
    rw [List.getElem?_append_left hlt, hsome]

/-- The globals after a client has been granted. -/
theorem Snapshot.grant {clients : List Nat} {mem : Memory} (h : Snapshot clients clients.length mem)
    (cl_pid : Nat) : Snapshot (clients ++ [cl_pid]) (clients.length + 1)
      ⟨Function.update mem.client_pids clients.length cl_pid, mem.active_clients + 1⟩ where
  count := by
    show mem.active_clients + 1 = _
    rw [h.count]
    rfl
  listed k hk := by
    rcases Nat.lt_or_ge k clients.length with hlt | hge
    · show _ = some (Function.update mem.client_pids clients.length cl_pid k)
      rw [Function.update_of_ne hlt.ne]
      exact (h.append [cl_pid]).listed k hlt
    · have : k = clients.length := by omega
      subst this
      show _ = some (Function.update mem.client_pids clients.length cl_pid clients.length)
      rw [Function.update_self, List.getElem?_concat_length]

variable {dir_name : Bytes} {server_pid : Nat} {max_client_count : Int} {s s' : Server}

/-- A request is refused, or granted with the globals of `Snapshot.grant`. -/
theorem connect_snapshot (h : Snapshots s) (hrun : s.running = true) (req : Request)
    (forks : Bool) : Snapshots (connect max_client_count s req forks) := by
  have hserver := h.server hrun
  unfold connect answerRequest
  by_cases hfull : s.mem.active_clients ≥ max_client_count
  · rw [if_pos hfull]
    simp only
    rw [if_neg (by split <;> exact nofun)]
    exact ⟨h.server, h.handler⟩
  rw [if_neg hfull]
  simp only [if_true]
  rw [if_pos (not_le.mp hfull)]
  have hlen : (pids s).length = s.handlers.length := List.length_map ..
  have hslot : s.mem.active_clients.toNat = (pids s).length := by
    rw [hserver.count, hlen]
    rfl
  rw [hslot]
  cases forks with
  | false =>
    rw [if_neg Bool.false_ne_true]
    exact ⟨nofun, h.handler⟩
  | true =>
    rw [if_pos rfl]
    have hgrant := Snapshot.grant (hlen.symm ▸ hserver : Snapshot (pids s) (pids s).length s.mem)
      req.cl_pid
    have hpids : ∀ p : Process, (s.handlers ++ [p]).map (·.cl_pid) = pids s ++ [p.cl_pid] :=
      fun p => List.map_append
    refine ⟨fun _ => ?_, fun i p hi hp => ?_⟩
    · show Snapshot ((s.handlers ++ [_]).map _) (s.handlers ++ [_]).length _
      rw [hpids, List.length_append, List.length_singleton, ← hlen]
      exact hgrant
    · show Snapshot ((s.handlers ++ [_]).map _) _ _
      rw [hpids]
      rcases Nat.lt_or_ge i s.handlers.length with hlt | hge
      · -- the handlers of before
        rw [List.getElem?_append_left hlt] at hi
        exact (h.handler i p hi hp).append _
      · -- the new handler has a copy of the server's globals
        have hi' : i < (s.handlers ++ [_]).length := (List.getElem?_eq_some_iff.mp hi).1
        rw [List.length_append, List.length_singleton] at hi'
        have : i = s.handlers.length := by omega
        subst this
        rw [List.getElem?_concat_length] at hi
        cases hi
        rw [← hlen]
        exact hgrant

/-- A handler that goes on serving has kept its copy. -/
theorem after_serving (w : World) (p : Process) (req : Request) (message : Bytes)
    (h : (p.after (handleRequest w dir_name server_pid p.mem req message)).status = .serving) :
    (p.after (handleRequest w dir_name server_pid p.mem req message)).mem = p.mem := by
  rcases handleRequest_cases w dir_name server_pid p.mem req message with
    ⟨_, hturn⟩ | ⟨_, hturn⟩ | ⟨_, _, reply, hturn⟩ | ⟨_, _, reply, hturn⟩
  · rw [hturn] at h
    cases h
  · rw [hturn] at h
    cases h
  · rw [hturn] at h
    cases h
  · rw [hturn]
    rfl

theorem after_cl_pid (p : Process) (turn : Turn) : (p.after turn).cl_pid = p.cl_pid := by
  cases turn <;> rfl

/-- A command leaves the pids of the clients as they are. -/
theorem pids_set {i : Nat} {p : Process} (hi : s.handlers[i]? = some p) (turn : Turn) :
    (s.handlers.set i (p.after turn)).map (·.cl_pid) = pids s := by
  obtain ⟨hlt, hget⟩ := List.getElem?_eq_some_iff.mp hi
  unfold pids
  rw [List.map_set, after_cl_pid, ← hget, ← List.getElem_map (fun p : Process => p.cl_pid)
    (h := by rw [List.length_map]; exact hlt), List.set_getElem_self]

theorem snapshots_step {e : Event} (h : Snapshots s)
    (hst : Step dir_name server_pid max_client_count s e s') : Snapshots s' := by
  cases hst with
  | @request req forks hrun => exact connect_snapshot h hrun req forks
  | @command i w req message p turn hi hserving hturn =>
    refine ⟨fun hrun => ?_, fun j q hj hq => ?_⟩
    · rw [Bool.and_eq_true] at hrun
      show Snapshot ((s.handlers.set i (p.after turn)).map _) (s.handlers.set i _).length s.mem
      rw [pids_set hi, List.length_set]
      exact h.server hrun.1
    · show Snapshot ((s.handlers.set i (p.after turn)).map _) _ _
      rw [pids_set hi]
      simp only at hj
      by_cases hij : i = j
      · subst hij
        rw [List.getElem?_set_self (List.getElem?_eq_some_iff.mp hi).1] at hj
        cases hj
        rw [hturn] at hq ⊢
        rw [after_serving w p req message hq]
        exact h.handler i p hi hserving
      · rw [List.getElem?_set_ne hij] at hj
        exact h.handler j q hj hq

/-- **The copy of a handler lists the clients granted up to its own.** -/
theorem snapshot_reachable (hs : (fileServer dir_name server_pid max_client_count).Reachable s) :
    Snapshots s := by
  refine hs.invariant (I := Snapshots) (fun s h0 => ?_) fun s e s' h hst => snapshots_step h hst
  obtain ⟨pids, rfl⟩ := h0
  exact ⟨fun _ => ⟨rfl, nofun⟩, nofun⟩

/-! ## §2. `killServer`. -/

/-- **The processes that a `killServer` signals**: those in the copy of the handler, and the
    server. -/
theorem kill_signals (w : World) (mem : Memory) {req : Request} (hkill : IsKill req)
    (message : Bytes) :
    signals (handleRequest w dir_name server_pid mem req message) = killed server_pid mem := by
  rcases handleRequest_cases w dir_name server_pid mem req message with
    ⟨hblank, _⟩ | ⟨hquit, _⟩ | ⟨_, _, reply, hturn⟩ | ⟨_, hother, _⟩
  · exact absurd (hblank.symm.trans hkill) nofun
  · exact absurd (Option.some.inj (hquit.symm.trans hkill)) (text_ne (by decide))
  · rw [hturn]
    rfl
  · exact absurd hkill hother

/-- Every client that is connected is signalled, and so is the server if it runs. -/
def ReachesAll (s : Server) (server_pid : Nat) (signalled : List Nat) : Prop :=
  (∀ p ∈ s.handlers, p.status ≠ .departed → p.cl_pid ∈ signalled)
    ∧ (s.running = true → server_pid ∈ signalled)

/-- Every client granted after the `i`-th one has left, or has the pid of a client granted up to
    that one, or of the server. -/
def NoneLater (s : Server) (server_pid i : Nat) : Prop :=
  ∀ j p, i < j → s.handlers[j]? = some p → p.status ≠ .departed →
    (∃ k q, k ≤ i ∧ s.handlers[k]? = some q ∧ q.cl_pid = p.cl_pid) ∨ p.cl_pid = server_pid

/-- **Shutdown.**  In every state of every history of connections and commands, a `killServer` of a
    connected client reaches every client that is connected and the server exactly when no client
    granted after the issuing one is still connected. -/
theorem kill_reaches_all_iff (hs : (fileServer dir_name server_pid max_client_count).Reachable s)
    {i : Nat} {issuer : Process} (hi : s.handlers[i]? = some issuer)
    (hserving : issuer.status = .serving) {req : Request} (hkill : IsKill req) (w : World)
    (message : Bytes) :
    ReachesAll s server_pid (signals (handleRequest w dir_name server_pid issuer.mem req message))
      ↔ NoneLater s server_pid i := by
  have hcopy := (snapshot_reachable hs).handler i issuer hi hserving
  rw [kill_signals w issuer.mem hkill message, killed, hcopy.count, Int.toNat_natCast]
  -- the pids in the copy are those of the handlers up to `i`
  have hmem : ∀ pid, pid ∈ (List.range (i + 1)).map issuer.mem.client_pids ++ [server_pid]
      ↔ (∃ k q, k ≤ i ∧ s.handlers[k]? = some q ∧ q.cl_pid = pid) ∨ pid = server_pid := by
    intro pid
    rw [List.mem_append, List.mem_singleton, List.mem_map]
    refine or_congr_left ⟨fun ⟨k, hk, hpid⟩ => ?_, fun ⟨k, q, hk, hq, hpid⟩ => ?_⟩
    · have hlisted := hcopy.listed k (List.mem_range.mp hk)
      unfold pids at hlisted
      rw [List.getElem?_map, Option.map_eq_some_iff] at hlisted
      obtain ⟨q, hq, hcl⟩ := hlisted
      exact ⟨k, q, by have := List.mem_range.mp hk; omega, hq, hcl.trans hpid⟩
    · refine ⟨k, List.mem_range.mpr (by omega), ?_⟩
      have hlisted := hcopy.listed k (by omega)
      unfold pids at hlisted
      rw [List.getElem?_map, hq, Option.map_some, Option.some.injEq] at hlisted
      rw [← hlisted, hpid]
  unfold ReachesAll NoneLater
  simp only [hmem]
  constructor
  · rintro ⟨hall, _⟩ j p _ hj hp
    exact hall p (List.mem_of_getElem? hj) hp
  · intro hlater
    refine ⟨fun p hp hconnected => ?_, fun _ => .inr trivial⟩
    obtain ⟨j, hj⟩ := List.mem_iff_getElem?.mp hp
    rcases Nat.lt_or_ge i j with hlt | hge
    · exact hlater j p hlt hj hconnected
    · exact .inl ⟨j, p, hge, hj, rfl⟩

/-- A server for two clients. -/
def pair : System Server Event := fileServer (text "files") 1 2

/-- Its first client has connected, -/
def firstIn : Server := connect 2 ⟨true, ⟨fun _ => 0, 0⟩, []⟩ ⟨text "connect", 2⟩ true

/-- and then the second one. -/
def bothIn : Server := connect 2 firstIn ⟨text "connect", 3⟩ true

/-- The handler of the first client, with its copy of the globals. -/
def firstHandler : Process := ⟨2, ⟨Function.update (fun _ => 0) 0 2, 1⟩, .serving⟩

theorem pair_bothIn : pair.Reachable bothIn := by
  have hstart : pair.Reachable ⟨true, ⟨fun _ => 0, 0⟩, []⟩ := .start ⟨_, rfl⟩
  have hfirst : pair.Reachable firstIn := .next hstart (.request rfl)
  exact .next hfirst (.request rfl)

theorem kill_reaches_all_iff_bothIn :
    ReachesAll bothIn 1 (signals (handleRequest bareWorld (text "files") 1 firstHandler.mem
        ⟨text "killServer", 2⟩ []))
      ↔ NoneLater bothIn 1 0 := by
  have hfirst : bothIn.handlers[0]? = some firstHandler := rfl
  exact kill_reaches_all_iff pair_bothIn hfirst rfl (by decide +kernel) _ _

/-- The first of two clients issues `killServer`, and the second one is not signalled. -/
theorem later_client_missed : ¬ ∀ (dir_name : Bytes) (server_pid : Nat) (max_client_count : Int)
    (s : Server) (i : Nat) (issuer : Process) (req : Request) (w : World) (message : Bytes),
      (fileServer dir_name server_pid max_client_count).Reachable s →
      s.handlers[i]? = some issuer → issuer.status = .serving → IsKill req →
      ReachesAll s server_pid
        (signals (handleRequest w dir_name server_pid issuer.mem req message)) := by
  intro hclaim
  have hkill : IsKill ⟨text "killServer", 2⟩ := by decide +kernel
  have hreach := (hclaim (text "files") 1 2 bothIn 0 firstHandler ⟨text "killServer", 2⟩ bareWorld
    [] pair_bothIn rfl rfl hkill).1
  rw [kill_signals bareWorld firstHandler.mem hkill []] at hreach
  have hsecond := hreach ⟨3, bothIn.mem, .serving⟩ (.tail _ (.head _)) (by decide)
  exact absurd hsecond (by decide)

end SystemOS.FileServer.Shutdown
