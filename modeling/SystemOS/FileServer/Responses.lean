/-
  SystemOS.FileServer.Responses — what a handler process sends back.

  Two questions about the responses of `handleClient`: whether every request that is read gets one,
  and whether their texts depend on the bytes that the allocated response happened to hold.

  `kill_server` sends SIGINT to the clients in `client_pids`, the one that asked for it included: its
  `sigint_handler` unlinks both of its FIFOs and ends the client, while the handler process goes on
  to `sendResponse`.

  Main results:
    * `handleRequest_cases` — how a turn of the loop ends, by the first word of the command.
    * `answered_cons`       — what the first request of a session must meet to be answered.
    * `one_response_iff`    — every request that is read is answered once exactly when all requests
      up to the first `killServer` meet that.
    * `message_fixed_iff`   — the message is free of what the buffer held exactly when the command
      does not append to it and no `flock` is refused.
-/
import SystemOS.FileServer.Handler

namespace SystemOS.FileServer.Responses

open SystemOS.Lib.Lines SystemOS.Lib.Strings SystemOS.Lib.Buffers
open SystemOS.FileServer.FileRequests (text text_ne readMessage writeMessage newFile)
open SystemOS.FileServer.Handler

variable (w : World) (dir_name : Bytes) (server_pid : Nat) (mem : Memory) (req : Request)

/-! ## §1. The session of a client. -/

/-- How `sendResponse` ends. -/
inductive Sending
  | written
  /-- `open` or `write` returns -1; the caller does not look at the result. -/
  | refused
  /-- The reader has closed the FIFO before the `write`: SIGPIPE ends the process. -/
  | sigpipe
  deriving DecidableEq

/-- One request, with what the allocated message holds and what the system does in its turn. -/
structure Input where
  world : World
  req : Request
  message : Bytes
  /-- `tmpfile` does not return NULL. -/
  tmpfile : Bool
  /-- How `sendResponse` ends on a FIFO that its client has not unlinked. -/
  sending : Sending
  /-- A SIGINT that the turn sends to its client is handled there before `sendResponse` opens the
      FIFO. -/
  interrupted : Bool

inductive Action
  | read (req : Request)
  | send (message : Bytes)

/-- `write_server_file` calls `fprintf` on the null pointer that it got from `tmpfile`: it does so
    for the first line of the file, or for the string, once it has the lock. -/
def nullStream (input : Input) : Bool :=
  match tokens input.req with
  | word :: file_name :: _ :: _ :: _ =>
    let path_name := serverPath dir_name file_name
    word == text "writeT" && !input.tmpfile && (input.world.fopenRead path_name).isSome
      && input.world.flock path_name
  | _ => false

/-- The processes that `kill_server` signals, in the order of the calls of `kill`. -/
def killed : List Nat := (List.range mem.active_clients.toNat).map mem.client_pids ++ [server_pid]

/-- `sendResponse` to the client `cl_pid`; one that has handled SIGINT has unlinked the FIFO. -/
def sendResponse (cl_pid : Nat) (input : Input) (signalled : List Nat) : Sending :=
  if input.interrupted && decide (cl_pid ∈ signalled) && input.world.kill cl_pid then .refused
  else input.sending

/-- `handleClient` for the client `cl_pid`, over the requests that it goes on to send. -/
def handleClient (cl_pid : Nat) : Memory → List Input → List Action
  | _, [] => []
  | mem, input :: rest =>
    .read input.req ::
      if nullStream dir_name input then []
      else match handleRequest input.world dir_name server_pid mem input.req input.message with
        | .crashed => []
        | .broken _ => []
        | .replied reply done mem signalled =>
          let next := if done then [] else handleClient cl_pid mem rest
          match sendResponse cl_pid input signalled with
          | .written => .send (received reply.message) :: next
          | .refused => next
          | .sigpipe => []

/-- Every request that was read was answered, once and before the next. -/
def Answered : List Action → Prop
  | [] => True
  | .read _ :: .send _ :: rest => Answered rest
  | _ => False

def firstWord (req : Request) : Option Bytes := (tokens req).head?

/-- The command has a word and is not `quit`. -/
def Answerable (req : Request) : Prop := firstWord req ≠ none ∧ firstWord req ≠ some (text "quit")

def IsKill (req : Request) : Prop := firstWord req = some (text "killServer")

instance : DecidablePred IsKill := fun req => by
  unfold IsKill
  infer_instance

/-- The requests up to the first `killServer`. -/
def heard : List Input → List Input
  | [] => []
  | input :: rest => if IsKill input.req then [input] else input :: heard rest

/-- **How a turn ends.** -/
theorem handleRequest_cases (message : Bytes) :
    firstWord req = none ∧ handleRequest w dir_name server_pid mem req message = .crashed
      ∨ firstWord req = some (text "quit")
        ∧ handleRequest w dir_name server_pid mem req message = .broken mem
      ∨ (Answerable req ∧ IsKill req ∧ ∃ reply,
          handleRequest w dir_name server_pid mem req message
            = .replied reply true { mem with active_clients := -1 } (killed server_pid mem))
      ∨ Answerable req ∧ ¬ IsKill req ∧ ∃ reply,
          handleRequest w dir_name server_pid mem req message = .replied reply false mem [] := by
  unfold Answerable IsKill firstWord handleRequest
  cases htokens : tokens req with
  | nil => exact .inl ⟨rfl, rfl⟩
  | cons word args =>
    right
    simp only [List.head?_cons, Option.some.injEq, ne_eq, reduceCtorEq, not_false_eq_true, true_and]
    by_cases hquit : word = text "quit"
    · subst hquit
      left
      rw [if_neg (text_ne (by decide)), if_pos rfl]
      exact ⟨rfl, rfl⟩
    right
    by_cases hkill : word = text "killServer"
    · subst hkill
      left
      refine ⟨text_ne (by decide), rfl, ?_⟩
      iterate 8 rw [if_neg (text_ne (by decide))]
      rw [if_pos rfl]
      exact ⟨_, rfl⟩
    · right
      refine ⟨hquit, hkill, ?_⟩
      rw [if_neg hquit, if_neg hkill]
      split_ifs <;> (try split) <;> exact ⟨_, rfl⟩

theorem handleRequest_quit (message : Bytes) (h : firstWord req = some (text "quit")) :
    handleRequest w dir_name server_pid mem req message = .broken mem := by
  rcases handleRequest_cases w dir_name server_pid mem req message with
    ⟨hblank, _⟩ | ⟨_, hturn⟩ | ⟨hok, _⟩ | ⟨hok, _⟩
  · rw [h] at hblank
    cases hblank
  · exact hturn
  · exact absurd h hok.2
  · exact absurd h hok.2

/-- The command is neither blank nor `quit`, no null stream is written, the FIFO takes the response,
    and a client that `kill_server` signals has not handled that before. -/
structure Served (cl_pid : Nat) (input : Input) : Prop where
  answerable : Answerable input.req
  stream : nullStream dir_name input = false
  sends : input.sending = .written
  uninterrupted : IsKill input.req → cl_pid ∈ killed server_pid mem →
    input.world.kill cl_pid = true → input.interrupted = false

variable {dir_name server_pid mem}

theorem sendResponse_kill {cl_pid : Nat} {input : Input} :
    sendResponse cl_pid input (killed server_pid mem) = .written ↔ input.sending = .written
      ∧ (cl_pid ∈ killed server_pid mem → input.world.kill cl_pid = true →
        input.interrupted = false) := by
  unfold sendResponse
  by_cases hgone : input.interrupted = true ∧ cl_pid ∈ killed server_pid mem
      ∧ input.world.kill cl_pid = true
  · obtain ⟨hinterrupted, hsignalled, hkill⟩ := hgone
    simp only [hinterrupted, hsignalled, hkill, decide_true, Bool.and_self, if_true]
    exact ⟨nofun, fun h => absurd (h.2 trivial trivial) (by decide)⟩
  · rw [if_neg (by simpa [and_assoc] using hgone)]
    refine ⟨fun h => ⟨h, fun hsignalled hkill => ?_⟩, fun h => h.1⟩
    exact Bool.eq_false_iff.mpr fun hinterrupted => hgone ⟨hinterrupted, hsignalled, hkill⟩

/-- **The first request of a session** is answered if it is served; the session ends with a
    `killServer`. -/
theorem answered_cons {cl_pid : Nat} {input : Input} {rest : List Input} :
    Answered (handleClient dir_name server_pid cl_pid mem (input :: rest))
      ↔ Served dir_name server_pid mem cl_pid input
        ∧ (IsKill input.req ∨ Answered (handleClient dir_name server_pid cl_pid mem rest)) := by
  rw [handleClient]
  by_cases hstream : nullStream dir_name input = true
  · rw [if_pos hstream]
    exact ⟨False.elim, fun h => absurd (h.1.stream.symm.trans hstream) (by decide)⟩
  rw [if_neg hstream]
  have hstream := Bool.eq_false_iff.mpr hstream
  rcases handleRequest_cases input.world dir_name server_pid mem input.req input.message with
    ⟨hblank, hturn⟩ | ⟨hquit, hturn⟩ | ⟨hok, hkill, reply, hturn⟩ | ⟨hok, hkill, reply, hturn⟩
  · -- the request is read and nothing is sent
    rw [hturn]
    exact ⟨False.elim, fun h => h.1.answerable.1 hblank⟩
  · rw [hturn]
    exact ⟨False.elim, fun h => h.1.answerable.2 hquit⟩
  · rw [hturn]
    have hserved : Served dir_name server_pid mem cl_pid input
        ↔ sendResponse cl_pid input (killed server_pid mem) = .written := by
      rw [sendResponse_kill]
      exact ⟨fun h => ⟨h.sends, h.uninterrupted hkill⟩, fun h => ⟨hok, hstream, h.1, fun _ => h.2⟩⟩
    rw [hserved, and_iff_left (.inl hkill)]
    simp only [if_true]
    cases sendResponse cl_pid input (killed server_pid mem) with
    | written => exact ⟨fun _ => rfl, fun _ => trivial⟩
    | refused => exact ⟨False.elim, nofun⟩
    | sigpipe => exact ⟨False.elim, nofun⟩
  · rw [hturn]
    have hserved : Served dir_name server_pid mem cl_pid input ↔ input.sending = .written :=
      ⟨fun h => h.sends, fun h => ⟨hok, hstream, h, fun hk => absurd hk hkill⟩⟩
    have hsend : sendResponse cl_pid input [] = input.sending := by
      unfold sendResponse
      simp
    rw [hserved, or_iff_right hkill]
    simp only [hsend, Bool.false_eq_true, if_false]
    cases input.sending with
    | written => exact (and_iff_right rfl).symm
    | refused =>
      -- what follows the request that was read is another read or nothing
      refine ⟨fun h => ?_, nofun⟩
      cases rest with
      | nil => exact h.elim
      | cons next rest =>
        rw [handleClient] at h
        exact h.elim
    | sigpipe => exact ⟨False.elim, nofun⟩

variable (dir_name server_pid mem)

/-- **One response for every request.**  Every request that `handleClient` reads is answered, once
    and before the next, exactly when each of the requests up to the first `killServer` is served:
    it has a word and is not `quit`, and nothing ends the process or loses the response. -/
theorem one_response_iff (cl_pid : Nat) (inputs : List Input) :
    Answered (handleClient dir_name server_pid cl_pid mem inputs)
      ↔ ∀ input ∈ heard inputs, Served dir_name server_pid mem cl_pid input := by
  induction inputs with
  | nil => exact ⟨fun _ => nofun, fun _ => trivial⟩
  | cons input rest ih =>
    rw [answered_cons, heard]
    by_cases hkill : IsKill input.req
    · rw [if_pos hkill, List.forall_mem_singleton]
      exact and_iff_left (.inl hkill)
    · rw [if_neg hkill, List.forall_mem_cons, or_iff_right hkill, ih]

/-- A system on which nothing can be opened. -/
def bareWorld : World :=
  ⟨fun _ => none, fun _ => false, fun _ => none, fun _ => false, fun _ => false, fun _ => none,
    fun _ => false⟩

/-- A client that only quits is never answered, although its FIFO would take the response. -/
theorem quit_unanswered : ¬ ∀ dir_name server_pid cl_pid mem inputs,
    (∀ input ∈ inputs, input.tmpfile = true ∧ input.sending = .written
      ∧ input.interrupted = false) →
    Answered (handleClient dir_name server_pid cl_pid mem inputs) := by
  intro hclaim
  have hanswered := hclaim (text "files") 1 2 ⟨fun _ => 2, 1⟩
    [⟨bareWorld, ⟨text "quit", 2⟩, [], true, .written, false⟩]
    (List.forall_mem_singleton.mpr ⟨rfl, rfl, rfl⟩)
  exact (answered_cons.mp hanswered).1.answerable.2 (by decide +kernel)

/-- Nor is one that asks for `killServer`, once it has handled the SIGINT that this sends it. -/
theorem killServer_unanswered (cl_pid : Nat) {input : Input} (rest : List Input)
    (hkill : IsKill input.req) (hsignalled : cl_pid ∈ killed server_pid mem)
    (hdelivered : input.world.kill cl_pid = true) (hhandled : input.interrupted = true) :
    ¬ Answered (handleClient dir_name server_pid cl_pid mem (input :: rest)) := by
  intro h
  have hfalse := (answered_cons.mp h).1.uninterrupted hkill hsignalled hdelivered
  exact absurd (hhandled.symm.trans hfalse) (by decide)

/-! ## §2. What a message depends on. -/

/-- The message that a client receives at the end of a turn, if any. -/
def sent : Turn → Option Bytes
  | .replied reply _ _ _ => some (received reply.message)
  | _ => none

/-- The client receives the same message whatever the allocated response held. -/
def MessageFixed : Prop :=
  ∀ b b' : Bytes, b.length = maxResponseSize → b'.length = maxResponseSize →
    sent (handleRequest w dir_name server_pid mem req b)
      = sent (handleRequest w dir_name server_pid mem req b')

/-- The command appends to the message: `list`, or `readF` with a file name. -/
def Appends : Prop :=
  ∃ args, tokens req = text "list" :: args ∨ tokens req = text "readF" :: args ∧ args ≠ []

/-- The command reaches a call of `flock` that is refused, and returns. -/
inductive LockRefused : Prop
  | writeT {file_name temp string : Bytes} {args : List Bytes} :
      tokens req = text "writeT" :: file_name :: temp :: string :: args →
      w.fopenRead (serverPath dir_name file_name) ≠ none →
      w.flock (serverPath dir_name file_name) = false → LockRefused
  | upload {filename : Bytes} {args : List Bytes} :
      tokens req = text "upload" :: filename :: args → w.access (clientPath filename) = true →
      w.fopenRead (clientPath filename) ≠ none → w.access (serverPath dir_name filename) = false →
      w.fopenWrite (serverPath dir_name filename) = true →
      w.flock (serverPath dir_name filename) = false → LockRefused
  | download {filename : Bytes} {args : List Bytes} :
      tokens req = text "download" :: filename :: args → w.access (clientPath filename) = false →
      w.access (serverPath dir_name filename) = true → w.fopenWrite (clientPath filename) = true →
      w.fopenRead (serverPath dir_name filename) ≠ none →
      w.flock (serverPath dir_name filename) = false → LockRefused

/-- A function of the buffer whose string does not depend on it. -/
def Copies (f : Bytes → Reply) : Prop := ∃ s, ∀ b, received (f b).message = s

/-- A function that only appends strings to it. -/
def Extends (f : Bytes → Reply) : Prop := ∃ ss, ∀ b, (f b).message = strcats b ss

theorem copies_strcpy (s : Bytes) (written : List (Bytes × Bytes)) :
    Copies fun b => ⟨strcpy b s, written⟩ :=
  ⟨_, fun b => seen_strcpy maxResponseSize b s⟩

theorem extends_self (written : List (Bytes × Bytes)) : Extends fun b => ⟨b, written⟩ :=
  ⟨[], fun _ => rfl⟩

/-! ## §3. The functions behind the commands. -/

theorem list_extends : Extends fun b => list_server_files w b dir_name := by
  unfold list_server_files
  cases w.opendir dir_name with
  | none => exact extends_self []
  | some entries =>
    -- one name and one line feed for each regular entry, in the order of the directory
    have hfold : ∃ ss, ∀ b, entries.foldl (fun b entry =>
        if entry.2 then strcat (strcat b entry.1) (text "\n") else b) b = strcats b ss := by
      induction entries with
      | nil => exact ⟨[], fun _ => rfl⟩
      | cons entry entries ih =>
        obtain ⟨ss, hss⟩ := ih
        by_cases hreg : entry.2 = true
        · refine ⟨entry.1 :: text "\n" :: ss, fun b => ?_⟩
          rw [List.foldl_cons, if_pos hreg, hss]
          rfl
        · refine ⟨ss, fun b => ?_⟩
          rw [List.foldl_cons, if_neg hreg, hss]
    exact hfold

theorem read_extends (path_name : Bytes) (lineNum : Int) :
    Extends fun b => read_server_file w b path_name lineNum := by
  unfold read_server_file
  cases w.fopenRead path_name with
  | none => exact extends_self []
  | some file =>
    simp only
    split_ifs
    · exact extends_self []
    · exact ⟨(lines 99 file).map cstr, fun _ => rfl⟩
    · exact extends_self []
    · cases (lines 99 file)[lineNum.toNat - 1]? with
      | none => exact extends_self []
      | some line => exact ⟨[cstr line], fun _ => rfl⟩

variable {w dir_name}

theorem write_copies {path_name string : Bytes} {lineNum : Int}
    (h : w.fopenRead path_name ≠ none → w.flock path_name = true) :
    Copies fun b => write_server_file w b path_name lineNum string := by
  unfold write_server_file
  cases hopen : w.fopenRead path_name with
  | none =>
    simp only
    split_ifs
    · exact copies_strcpy _ _
    · exact copies_strcpy _ _
  | some file =>
    rw [hopen] at h
    simp only [h nofun, Bool.true_eq_false, if_false]
    split_ifs
    · exact copies_strcpy _ _
    · exact copies_strcpy _ _

theorem write_extends {path_name string : Bytes} {lineNum : Int}
    (hopen : w.fopenRead path_name ≠ none) (hlock : w.flock path_name = false) :
    Extends fun b => write_server_file w b path_name lineNum string := by
  obtain ⟨file, hfile⟩ := Option.ne_none_iff_exists'.mp hopen
  unfold write_server_file
  simp only [hfile, hlock]
  exact extends_self []

theorem upload_copies {filename : Bytes}
    (h : w.access (clientPath filename) = true → w.fopenRead (clientPath filename) ≠ none →
      w.access (serverPath dir_name filename) = false →
      w.fopenWrite (serverPath dir_name filename) = true →
      w.flock (serverPath dir_name filename) = true) :
    Copies fun b => upload_file_to_server w b filename dir_name := by
  unfold upload_file_to_server
  simp only
  cases hclient : w.access (clientPath filename)
  · exact copies_strcpy _ []
  cases hopen : w.fopenRead (clientPath filename) with
  | none => exact copies_strcpy _ []
  | some client_file =>
    cases hserver : w.access (serverPath dir_name filename)
    · cases hwrite : w.fopenWrite (serverPath dir_name filename)
      · exact copies_strcpy _ []
      · simp only [h hclient (by rw [hopen]; exact nofun) hserver hwrite]
        exact copies_strcpy _ _
    · exact copies_strcpy _ []

theorem upload_extends {filename : Bytes} (hclient : w.access (clientPath filename) = true)
    (hopen : w.fopenRead (clientPath filename) ≠ none)
    (hserver : w.access (serverPath dir_name filename) = false)
    (hwrite : w.fopenWrite (serverPath dir_name filename) = true)
    (hlock : w.flock (serverPath dir_name filename) = false) :
    Extends fun b => upload_file_to_server w b filename dir_name := by
  obtain ⟨client_file, hfile⟩ := Option.ne_none_iff_exists'.mp hopen
  unfold upload_file_to_server
  simp only [hclient, hfile, hserver, hwrite, hlock]
  exact extends_self _

theorem download_copies {filename : Bytes}
    (h : w.access (clientPath filename) = false →
      w.access (serverPath dir_name filename) = true →
      w.fopenWrite (clientPath filename) = true →
      w.fopenRead (serverPath dir_name filename) ≠ none →
      w.flock (serverPath dir_name filename) = true) :
    Copies fun b => download_file_from_server w b filename dir_name := by
  unfold download_file_from_server
  simp only
  cases hclient : w.access (clientPath filename)
  · cases hserver : w.access (serverPath dir_name filename)
    · exact copies_strcpy _ []
    cases hwrite : w.fopenWrite (clientPath filename)
    · exact copies_strcpy _ []
    cases hopen : w.fopenRead (serverPath dir_name filename) with
    | none => exact copies_strcpy _ _
    | some server_file =>
      simp only [h hclient hserver hwrite (by rw [hopen]; exact nofun)]
      exact copies_strcpy _ _
  · exact copies_strcpy _ []

theorem download_extends {filename : Bytes} (hclient : w.access (clientPath filename) = false)
    (hserver : w.access (serverPath dir_name filename) = true)
    (hwrite : w.fopenWrite (clientPath filename) = true)
    (hopen : w.fopenRead (serverPath dir_name filename) ≠ none)
    (hlock : w.flock (serverPath dir_name filename) = false) :
    Extends fun b => download_file_from_server w b filename dir_name := by
  obtain ⟨server_file, hfile⟩ := Option.ne_none_iff_exists'.mp hopen
  unfold download_file_from_server
  simp only [hclient, hfile, hserver, hwrite, hlock]
  exact extends_self _

theorem arch_copies (filename : Bytes) : Copies fun b => arch_server_files w b filename := by
  unfold arch_server_files
  cases w.tar filename with
  | none => exact copies_strcpy _ _
  | some ok => cases ok <;> exact copies_strcpy _ _

/-- Whatever the clients' signals left in the buffer, the last message covers it. -/
theorem kill_copies (mem : Memory) (server_pid : Nat) :
    Copies fun b => answer (kill_server w mem server_pid b).1 := by
  unfold kill_server
  cases w.kill server_pid
  · exact ⟨_, fun b => seen_strcpy maxResponseSize _ _⟩
  · exact ⟨_, fun b => seen_strcpy maxResponseSize _ _⟩

/-! ## §4. The message as a function of the buffer. -/

variable {server_pid mem req}

theorem fixed_of_copies {f : Bytes → Reply} (h : Copies f)
    (heq : ∀ b, sent (handleRequest w dir_name server_pid mem req b)
      = some (received (f b).message)) : MessageFixed w dir_name server_pid mem req := by
  obtain ⟨s, hs⟩ := h
  intro b b' _ _
  rw [heq, heq, hs, hs]

theorem not_fixed_of_extends {f : Bytes → Reply} (h : Extends f)
    (heq : ∀ b, sent (handleRequest w dir_name server_pid mem req b)
      = some (received (f b).message)) : ¬ MessageFixed w dir_name server_pid mem req := by
  obtain ⟨ss, hss⟩ := h
  obtain ⟨b, b', hb, hb', hne⟩ := strcats_depend (n := maxResponseSize) (by decide) ss
  intro hfixed
  have hsame := hfixed b b' hb hb'
  rw [heq, heq, hss, hss] at hsame
  exact hne (Option.some.inj hsame)

/-- A command other than those that append to the message or take a lock. -/
theorem fixed_of_other {word : Bytes} {args : List Bytes} (h : tokens req = word :: args)
    (hlist : word ≠ text "list") (hread : word ≠ text "readF") (hwrite : word ≠ text "writeT")
    (hup : word ≠ text "upload") (hdown : word ≠ text "download") :
    MessageFixed w dir_name server_pid mem req := by
  have hturn : ∀ b, handleRequest w dir_name server_pid mem req b = _ := fun b => by
    unfold handleRequest
    simp only [h]
    rw [if_neg hlist, if_neg hread, if_neg hwrite, if_neg hup, if_neg hdown]
  by_cases hhelp : word = text "help"
  · exact fixed_of_copies (copies_strcpy _ []) fun b => congrArg sent ((hturn b).trans (if_pos hhelp))
  simp only [if_neg hhelp] at hturn
  by_cases hquit : word = text "quit"
  · -- the message of `quit` is composed but not sent
    intro b b' _ _
    rw [hturn, hturn, if_pos hquit, if_pos hquit]
  simp only [if_neg hquit] at hturn
  by_cases harch : word = text "archServer"
  · simp only [if_pos harch] at hturn
    cases args with
    | nil => exact fixed_of_copies (copies_strcpy _ []) fun b => congrArg sent (hturn b)
    | cons filename args => exact fixed_of_copies (arch_copies filename) fun b => congrArg sent (hturn b)
  simp only [if_neg harch] at hturn
  by_cases hkill : word = text "killServer"
  · simp only [if_pos hkill] at hturn
    exact fixed_of_copies (kill_copies mem server_pid) fun b => congrArg sent (hturn b)
  · simp only [if_neg hkill] at hturn
    exact fixed_of_copies (copies_strcpy _ []) fun b => congrArg sent (hturn b)

/-- The turns of the five others, with enough words behind the command. -/
theorem sent_list {args : List Bytes} (h : tokens req = text "list" :: args) (b : Bytes) :
    sent (handleRequest w dir_name server_pid mem req b)
      = some (received (list_server_files w b dir_name).message) := by
  unfold handleRequest
  simp only [h]
  iterate 2 rw [if_neg (text_ne (by decide))]
  rfl

theorem sent_readF {file_name : Bytes} {args : List Bytes}
    (h : tokens req = text "readF" :: file_name :: args) (b : Bytes) :
    sent (handleRequest w dir_name server_pid mem req b) = some (received
      (read_server_file w b (serverPath dir_name file_name) (lineNumber args)).message) := by
  unfold handleRequest
  simp only [h]
  iterate 3 rw [if_neg (text_ne (by decide))]
  rfl

theorem sent_writeT {file_name temp string : Bytes} {args : List Bytes}
    (h : tokens req = text "writeT" :: file_name :: temp :: string :: args) (b : Bytes) :
    sent (handleRequest w dir_name server_pid mem req b) = some (received
      (write_server_file w b (serverPath dir_name file_name) (atoi temp) string).message) := by
  unfold handleRequest
  simp only [h]
  iterate 4 rw [if_neg (text_ne (by decide))]
  rfl

theorem sent_upload {filename : Bytes} {args : List Bytes}
    (h : tokens req = text "upload" :: filename :: args) (b : Bytes) :
    sent (handleRequest w dir_name server_pid mem req b)
      = some (received (upload_file_to_server w b filename dir_name).message) := by
  unfold handleRequest
  simp only [h]
  iterate 5 rw [if_neg (text_ne (by decide))]
  rfl

theorem sent_download {filename : Bytes} {args : List Bytes}
    (h : tokens req = text "download" :: filename :: args) (b : Bytes) :
    sent (handleRequest w dir_name server_pid mem req b)
      = some (received (download_file_from_server w b filename dir_name).message) := by
  unfold handleRequest
  simp only [h]
  iterate 6 rw [if_neg (text_ne (by decide))]
  rfl

/-- Without the words it needs, such a command is invalid. -/
theorem sent_incomplete {word : Bytes} {args : List Bytes} (h : tokens req = word :: args)
    (hshort : word = text "writeT" ∧ args.length < 3
      ∨ args = [] ∧ (word = text "readF" ∨ word = text "upload" ∨ word = text "download"))
    (b : Bytes) : sent (handleRequest w dir_name server_pid mem req b)
      = some (received (invalidCommand b).message) := by
  unfold handleRequest
  simp only [h]
  rcases hshort with ⟨rfl, hlen⟩ | ⟨rfl, rfl | rfl | rfl⟩
  · iterate 4 rw [if_neg (text_ne (by decide))]
    rw [if_pos rfl]
    rcases args with _ | ⟨file_name, _ | ⟨temp, _ | ⟨string, args⟩⟩⟩
    · rfl
    · rfl
    · rfl
    · simp only [List.length_cons] at hlen
      omega
  · iterate 3 rw [if_neg (text_ne (by decide))]
    rw [if_pos rfl]
    rfl
  · iterate 5 rw [if_neg (text_ne (by decide))]
    rw [if_pos rfl]
    rfl
  · iterate 6 rw [if_neg (text_ne (by decide))]
    rw [if_pos rfl]
    rfl

/-! The commands that take an exclusive lock, when none is refused. -/

section Locks

variable {args : List Bytes} (hlocks : ¬ LockRefused w dir_name req)
include hlocks

theorem fixed_writeT (h : tokens req = text "writeT" :: args) :
    MessageFixed w dir_name server_pid mem req := by
  by_cases hshort : args.length < 3
  · exact fixed_of_copies (copies_strcpy _ []) (sent_incomplete h (.inl ⟨rfl, hshort⟩))
  rcases args with _ | ⟨file_name, _ | ⟨temp, _ | ⟨string, args⟩⟩⟩
  · exact absurd (Nat.lt_of_sub_eq_succ rfl) hshort
  · exact absurd (Nat.lt_of_sub_eq_succ rfl) hshort
  · exact absurd (Nat.lt_of_sub_eq_succ rfl) hshort
  · refine fixed_of_copies (write_copies fun hopen => ?_) (sent_writeT h)
    exact Bool.of_not_eq_false fun hlock => hlocks (.writeT h hopen hlock)

theorem fixed_upload (h : tokens req = text "upload" :: args) :
    MessageFixed w dir_name server_pid mem req := by
  cases args with
  | nil => exact fixed_of_copies (copies_strcpy _ []) (sent_incomplete h (.inr ⟨rfl, .inr (.inl rfl)⟩))
  | cons filename args =>
    refine fixed_of_copies (upload_copies fun hclient hopen hserver hwrite => ?_) (sent_upload h)
    exact Bool.of_not_eq_false fun hlock => hlocks (.upload h hclient hopen hserver hwrite hlock)

theorem fixed_download (h : tokens req = text "download" :: args) :
    MessageFixed w dir_name server_pid mem req := by
  cases args with
  | nil => exact fixed_of_copies (copies_strcpy _ []) (sent_incomplete h (.inr ⟨rfl, .inr (.inr rfl)⟩))
  | cons filename args =>
    refine fixed_of_copies (download_copies fun hclient hserver hwrite hopen => ?_)
      (sent_download h)
    exact Bool.of_not_eq_false fun hlock => hlocks (.download h hclient hserver hwrite hopen hlock)

end Locks

/-- **What a message depends on.**  The message that the client receives is free of what the
    allocated buffer held exactly when the command is neither `list` nor a `readF` with a file name,
    and no `flock` is refused on the way. -/
theorem message_fixed_iff : MessageFixed w dir_name server_pid mem req
    ↔ ¬ Appends req ∧ ¬ LockRefused w dir_name req := by
  refine ⟨fun hfixed => ⟨fun happends => ?_, fun hrefused => ?_⟩, fun ⟨hcopies, hlocks⟩ => ?_⟩
  · obtain ⟨args, hlist | ⟨hread, hne⟩⟩ := happends
    · exact not_fixed_of_extends (list_extends w dir_name) (sent_list hlist) hfixed
    · obtain ⟨file_name, args, rfl⟩ := List.exists_cons_of_ne_nil hne
      exact not_fixed_of_extends (read_extends w _ _) (sent_readF hread) hfixed
  · cases hrefused with
    | writeT htokens hopen hlock =>
      exact not_fixed_of_extends (write_extends hopen hlock) (sent_writeT htokens) hfixed
    | upload htokens hclient hopen hserver hwrite hlock =>
      exact not_fixed_of_extends (upload_extends hclient hopen hserver hwrite hlock)
        (sent_upload htokens) hfixed
    | download htokens hclient hserver hwrite hopen hlock =>
      exact not_fixed_of_extends (download_extends hclient hserver hwrite hopen hlock)
        (sent_download htokens) hfixed
  -- the remaining commands copy their message, whatever way they end
  cases htokens : tokens req with
  | nil =>
    intro b b' _ _
    unfold handleRequest
    simp only [htokens]
  | cons word args =>
    by_cases hlist : word = text "list"
    · exact absurd ⟨args, .inl (by rw [htokens, hlist])⟩ hcopies
    by_cases hread : word = text "readF"
    · have hargs : args = [] := by
        by_contra hne
        exact hcopies ⟨args, .inr ⟨by rw [htokens, hread], hne⟩⟩
      exact fixed_of_copies (copies_strcpy _ [])
        (sent_incomplete htokens (.inr ⟨hargs, .inl hread⟩))
    by_cases hwrite : word = text "writeT"
    · subst hwrite
      exact fixed_writeT hlocks htokens
    by_cases hup : word = text "upload"
    · subst hup
      exact fixed_upload hlocks htokens
    by_cases hdown : word = text "download"
    · subst hdown
      exact fixed_download hlocks htokens
    exact fixed_of_other htokens hlist hread hwrite hup hdown

/-- Listing a directory without files shows the buffer. -/
theorem list_leaks : ¬ ∀ (w : World) (dir_name : Bytes) (server_pid : Nat) (mem : Memory)
    (req : Request), MessageFixed w dir_name server_pid mem req := by
  intro hclaim
  have hlist : tokens ⟨text "list", 2⟩ = text "list" :: [] := by decide +kernel
  exact not_fixed_of_extends (list_extends bareWorld (text "files")) (sent_list hlist)
    (hclaim bareWorld (text "files") 1 ⟨fun _ => 2, 1⟩ _)

end SystemOS.FileServer.Responses
