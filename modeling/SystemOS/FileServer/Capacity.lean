/-
  SystemOS.FileServer.Capacity — the arrays in which the handlers put strings together.

  The paths go into arrays of 50 bytes and the message of a response into one of 1024, through
  `strcpy`, `strcat` and `sprintf`, none of which looks at the size.  Here a turn of `handleClient`
  is the list of these calls, array by array.

  Main results:
    * `message_calls` — replaying the calls on the message gives the message of the response.
    * `fits_iff`      — when every string fits its array.
-/
import SystemOS.Lib.Decimal
import SystemOS.FileServer.Commands
import SystemOS.FileServer.Responses

namespace SystemOS.FileServer.Capacity

open SystemOS.Lib.Lines SystemOS.Lib.Strings SystemOS.Lib.Strtok SystemOS.Lib.Buffers
open SystemOS.Lib.Decimal
open SystemOS.FileServer.FileRequests (text text_ne text_length editLines writeMessage)
open SystemOS.FileServer.Handler SystemOS.FileServer.Commands

/-! ## §1. Calls and the strings they leave. -/

/-- A call that writes into an array; `sprintf` copies the text that it puts together. -/
inductive Call
  | strcpy (s : Bytes)
  | strcat (s : Bytes)

def Call.run (b : Bytes) : Call → Bytes
  | .strcpy s => Lib.Buffers.strcpy b s
  | .strcat s => Lib.Buffers.strcat b s

/-- The string that the array holds after each call. -/
def held : Bytes → List Call → List Bytes
  | _, [] => []
  | b, c :: cs => cstr (c.run b) :: held (c.run b) cs

/-- With its terminator, every string fits into `n` bytes. -/
def FitIn (n : Nat) (b : Bytes) (cs : List Call) : Prop := ∀ s ∈ held b cs, s.length < n

/-- The calls of a turn on each of the arrays. -/
structure Calls where
  path_name : List Call := []
  server_path : List Call := []
  client_path : List Call := []
  message : List Call := []

/-- What the arrays hold before. -/
structure Arrays where
  path_name : Bytes
  server_path : Bytes
  client_path : Bytes
  message : Bytes

/-- `char path_name[50]`, and the same for the other two paths. -/
def pathSize : Nat := 50

/-- Every string fits its array. -/
structure Fits (a : Arrays) (cs : Calls) : Prop where
  path_name : FitIn pathSize a.path_name cs.path_name
  server_path : FitIn pathSize a.server_path cs.server_path
  client_path : FitIn pathSize a.client_path cs.client_path
  message : FitIn maxResponseSize a.message cs.message

/-! ## §2. The calls of the handlers. -/

/-- `strcpy(path, dir_name); strcat(path, "/"); strcat(path, filename)`. -/
def joined (dir_name filename : Bytes) : List Call :=
  [.strcpy dir_name, .strcat (text "/"), .strcat filename]

/-- `strcpy(client_path, "./"); strcat(client_path, filename)`. -/
def local_ (filename : Bytes) : List Call := [.strcpy (text "./"), .strcat filename]

/-- What `list_server_files` appends. -/
def listed (w : World) (dir_name : Bytes) : List Bytes :=
  match w.opendir dir_name with
  | none => []
  | some entries => entries.flatMap fun entry => if entry.2 then [entry.1, text "\n"] else []

/-- What `read_server_file` appends. -/
def linesRead (w : World) (path_name : Bytes) (lineNum : Int) : List Bytes :=
  match w.fopenRead path_name with
  | none => []
  | some file =>
    if w.flock path_name = false then []
    else if lineNum = 0 then (lines 99 file).map cstr
    else if lineNum < 0 then []
    else ((lines 99 file)[lineNum.toNat - 1]?).toList.map cstr

/-- What `write_server_file` says. -/
def writeSays (w : World) (path_name : Bytes) (lineNum : Int) (string : Bytes) : List Bytes :=
  match w.fopenRead path_name with
  | none =>
    if w.fopenWrite path_name = false then [text "Error creating file"]
    else [writeMessage lineNum string []]
  | some file =>
    if w.flock path_name = false then []
    else if w.fopenWrite path_name = false then [text "Error opening file"]
    else [writeMessage lineNum string file]

def upload_calls (w : World) (filename dir_name : Bytes) : Calls :=
  let calls : Calls := { client_path := local_ filename }
  if w.access (clientPath filename) = false then
    { calls with message :=
        [.strcpy (text "Error: No file in client's directory with the given filename!\n")] }
  else match w.fopenRead (clientPath filename) with
    | none => { calls with message := [.strcpy (text "Error opening client file")] }
    | some _ =>
      let calls := { calls with server_path := joined dir_name filename }
      let server_path := serverPath dir_name filename
      if w.access server_path then
        { calls with message := [.strcpy (text "Error: File already exists on the server!\n")] }
      else if w.fopenWrite server_path = false then
        { calls with message := [.strcpy (text "Error opening server file")] }
      else if w.flock server_path = false then calls
      else { calls with message := [.strcpy (text "File uploaded successfully")] }

def download_calls (w : World) (filename dir_name : Bytes) : Calls :=
  let calls : Calls := { client_path := local_ filename, server_path := joined dir_name filename }
  let client_path := clientPath filename
  let server_path := serverPath dir_name filename
  if w.access client_path then
    { calls with message := [.strcpy (text "Error: File already exists on the client!\n")] }
  else if w.access server_path = false then
    { calls with message :=
        [.strcpy (text "Error: No file in server's directory with the given filename!\n")] }
  else if w.fopenWrite client_path = false then
    { calls with message := [.strcpy (text "Error opening client file")] }
  else match w.fopenRead server_path with
    | none => { calls with message := [.strcpy (text "Error opening server file")] }
    | some _ =>
      if w.flock server_path = false then calls
      else { calls with message := [.strcpy (text "File downloaded successfully")] }

def archSays (w : World) (filename : Bytes) : Bytes :=
  match w.tar filename with
  | none => text "Error: Fork failed"
  | some true => text "Files archived successfully"
  | some false => text "Error: Archiving failed"

/-- What `kill_server` says about a client. -/
def clientSays (w : World) (pid : Nat) : Bytes :=
  if w.kill pid then text "bye"
  else text "Error sending kill signal to client " ++ text (toString pid)

def killSays (w : World) (mem : Memory) (server_pid : Nat) : List Bytes :=
  ((List.range mem.active_clients.toNat).map mem.client_pids).map (clientSays w) ++
    [if w.kill server_pid then text "Kill server signal received. Server shutting down...\n"
      else text "Error sending kill signal to the server"]

/-- A message that is copied. -/
def say (s : Bytes) : Calls := { message := [.strcpy s] }

/-- The calls of one turn of the loop of `handleClient`. -/
def handleCalls (w : World) (dir_name : Bytes) (server_pid : Nat) (mem : Memory) (req : Request) :
    Calls :=
  match tokens req with
  | [] => {}
  | request_word :: args =>
    if request_word = text "help" then
      say (text ("Available commands are :\nhelp, list, readF, writeT, " ++
        "upload, download, archServer, quit, killServer\n"))
    else if request_word = text "quit" then
      say (text ("Sending write request to server log file\n waiting for logfile...\n " ++
        "logfile request granted\n bye...\n"))
    else if request_word = text "list" then { message := (listed w dir_name).map .strcat }
    else if request_word = text "readF" then
      match args with
      | [] => say (text "Invalid command")
      | file_name :: args =>
        { path_name := joined dir_name file_name
          message := (linesRead w (serverPath dir_name file_name) (lineNumber args)).map .strcat }
    else if request_word = text "writeT" then
      match args with
      | [] => say (text "Invalid command")
      | file_name :: temp :: string :: _ =>
        { path_name := joined dir_name file_name
          message := (writeSays w (serverPath dir_name file_name) (atoi temp) string).map .strcpy }
      -- the path is put together before the text is looked for
      | file_name :: _ =>
        { path_name := joined dir_name file_name, message := [.strcpy (text "Invalid command")] }
    else if request_word = text "upload" then
      match args with
      | [] => say (text "Invalid command")
      | filename :: _ => upload_calls w filename dir_name
    else if request_word = text "download" then
      match args with
      | [] => say (text "Invalid command")
      | filename :: _ => download_calls w filename dir_name
    else if request_word = text "archServer" then
      match args with
      | [] => say (text "Invalid command")
      | filename :: _ => say (archSays w filename)
    else if request_word = text "killServer" then
      { message := (killSays w mem server_pid).map .strcpy }
    else say (text "Invalid command")

/-! ## §3. The calls on the message make the response. -/

/-- The array after some calls. -/
def replay (b : Bytes) (cs : List Call) : Bytes := cs.foldl Call.run b

theorem replay_strcats (b : Bytes) (ss : List Bytes) : replay b (ss.map .strcat) = strcats b ss := by
  unfold replay strcats
  rw [List.foldl_map]
  rfl

theorem list_replay (w : World) (message dir_name : Bytes) :
    (list_server_files w message dir_name).message
      = replay message ((listed w dir_name).map .strcat) := by
  rw [replay_strcats]
  unfold list_server_files listed
  cases w.opendir dir_name with
  | none => rfl
  | some entries =>
    show entries.foldl _ message = strcats message (entries.flatMap _)
    induction entries generalizing message with
    | nil => rfl
    | cons entry entries ih =>
      rw [List.foldl_cons, List.flatMap_cons, ih]
      cases entry.2 <;> rfl

theorem read_replay (w : World) (message path_name : Bytes) (lineNum : Int) :
    (read_server_file w message path_name lineNum).message
      = replay message ((linesRead w path_name lineNum).map .strcat) := by
  rw [replay_strcats]
  unfold read_server_file linesRead
  cases w.fopenRead path_name with
  | none => rfl
  | some file =>
    simp only
    split_ifs
    · rfl
    · rfl
    · rfl
    · cases (lines 99 file)[lineNum.toNat - 1]? <;> rfl

theorem write_replay (w : World) (message path_name string : Bytes) (lineNum : Int) :
    (write_server_file w message path_name lineNum string).message
      = replay message ((writeSays w path_name lineNum string).map .strcpy) := by
  unfold write_server_file writeSays
  cases w.fopenRead path_name with
  | none =>
    simp only
    split_ifs <;> rfl
  | some file =>
    simp only
    split_ifs <;> rfl

theorem upload_replay (w : World) (message filename dir_name : Bytes) :
    (upload_file_to_server w message filename dir_name).message
      = replay message (upload_calls w filename dir_name).message := by
  unfold upload_file_to_server upload_calls
  simp only
  split
  · rfl
  · cases w.fopenRead (clientPath filename) with
    | none => rfl
    | some file =>
      simp only
      split_ifs <;> rfl

theorem download_replay (w : World) (message filename dir_name : Bytes) :
    (download_file_from_server w message filename dir_name).message
      = replay message (download_calls w filename dir_name).message := by
  unfold download_file_from_server download_calls
  simp only
  split_ifs
  · rfl
  · rfl
  · rfl
  · cases w.fopenRead (serverPath dir_name filename) <;> rfl
  · cases w.fopenRead (serverPath dir_name filename) <;> rfl

theorem arch_replay (w : World) (message filename : Bytes) :
    (arch_server_files w message filename).message
      = replay message (say (archSays w filename)).message := by
  unfold arch_server_files archSays
  rcases w.tar filename with _ | _ | _ <;> rfl

theorem kill_replay (w : World) (mem : Memory) (server_pid : Nat) (message : Bytes) :
    (kill_server w mem server_pid message).1
      = replay message ((killSays w mem server_pid).map .strcpy) := by
  have hclients : ∀ (pids : List Nat) (b : Bytes),
      pids.foldl (fun b pid => if w.kill pid then strcpy b (text "bye")
        else strcpy b (text "Error sending kill signal to client " ++ text (toString pid))) b
      = replay b ((pids.map (clientSays w)).map .strcpy) := by
    intro pids
    induction pids with
    | nil => exact fun _ => rfl
    | cons pid pids ih =>
      intro b
      rw [List.foldl_cons, ih]
      show _ = replay (strcpy b (clientSays w pid)) _
      unfold clientSays
      split <;> rfl
  unfold kill_server killSays
  simp only [hclients]
  rw [List.map_append, replay, replay, List.foldl_append]
  split <;> rfl

/-- **Replaying the calls on the message gives the message of the response.** -/
theorem message_calls (w : World) (dir_name : Bytes) (server_pid : Nat) (mem mem' : Memory)
    (req : Request) (message : Bytes) (reply : Reply) (done : Bool) (signalled : List Nat)
    (h : handleRequest w dir_name server_pid mem req message = .replied reply done mem' signalled) :
    reply.message = replay message (handleCalls w dir_name server_pid mem req).message := by
  unfold handleRequest at h
  unfold handleCalls
  cases htokens : tokens req with
  | nil =>
    rw [htokens] at h
    cases h
  | cons word args =>
    rw [htokens] at h
    simp only at h ⊢
    by_cases hhelp : word = text "help"
    · rw [if_pos hhelp] at h ⊢
      cases h
      rfl
    rw [if_neg hhelp] at h ⊢
    by_cases hquit : word = text "quit"
    -- which sends nothing
    · rw [if_pos hquit] at h
      cases h
    rw [if_neg hquit] at h ⊢
    by_cases hlist : word = text "list"
    · rw [if_pos hlist] at h ⊢
      cases h
      exact list_replay w message dir_name
    rw [if_neg hlist] at h ⊢
    by_cases hread : word = text "readF"
    · rw [if_pos hread] at h ⊢
      cases args with
      | nil =>
        cases h
        rfl
      | cons file_name args =>
        cases h
        exact read_replay w message _ _
    rw [if_neg hread] at h ⊢
    by_cases hwrite : word = text "writeT"
    · rw [if_pos hwrite] at h ⊢
      rcases args with _ | ⟨file_name, _ | ⟨temp, _ | ⟨string, rest⟩⟩⟩
      · cases h
        rfl
      · cases h
        rfl
      · cases h
        rfl
      · cases h
        exact write_replay w message _ _ _
    rw [if_neg hwrite] at h ⊢
    by_cases hupload : word = text "upload"
    · rw [if_pos hupload] at h ⊢
      cases args with
      | nil =>
        cases h
        rfl
      | cons filename args =>
        cases h
        exact upload_replay w message _ _
    rw [if_neg hupload] at h ⊢
    by_cases hdownload : word = text "download"
    · rw [if_pos hdownload] at h ⊢
      cases args with
      | nil =>
        cases h
        rfl
      | cons filename args =>
        cases h
        exact download_replay w message _ _
    rw [if_neg hdownload] at h ⊢
    by_cases harch : word = text "archServer"
    · rw [if_pos harch] at h ⊢
      cases args with
      | nil =>
        cases h
        rfl
      | cons filename args =>
        cases h
        exact arch_replay w message filename
    rw [if_neg harch] at h ⊢
    by_cases hkill : word = text "killServer"
    · rw [if_pos hkill] at h ⊢
      cases h
      exact kill_replay w mem server_pid message
    rw [if_neg hkill] at h ⊢
    cases h
    rfl

/-! ## §4. Strings that fit. -/

theorem cstr_run_strcpy (b s : Bytes) : cstr (Call.run b (.strcpy s)) = cstr s :=
  cstr_append_nul s _

theorem cstr_run_strcat (b s : Bytes) : cstr (Call.run b (.strcat s)) = cstr b ++ cstr s := by
  have hfront : ∀ c ∈ cstr b, c ≠ 0 := fun c hc => by simpa using List.mem_takeWhile_imp hc
  show cstr (cstr b ++ (s ++ 0 :: _)) = _
  unfold cstr at hfront ⊢
  rw [List.takeWhile_append_of_pos (by simpa using hfront)]
  congr 1
  exact cstr_append_nul s _

theorem cstr_length_le (s : Bytes) : (cstr s).length ≤ s.length :=
  (List.takeWhile_sublist _).length_le

theorem fitIn_nil (n : Nat) (b : Bytes) : FitIn n b [] := nofun

/-- Short texts that are copied fit. -/
theorem fitIn_strcpys {n : Nat} {ss : List Bytes} (b : Bytes) (h : ∀ s ∈ ss, s.length < n) :
    FitIn n b (ss.map .strcpy) := by
  induction ss generalizing b with
  | nil => exact fitIn_nil n b
  | cons s ss ih =>
    obtain ⟨hs, hss⟩ := List.forall_mem_cons.mp h
    intro t ht
    rcases List.mem_cons.mp ht with rfl | ht
    · rw [cstr_run_strcpy]
      exact lt_of_le_of_lt (cstr_length_le s) hs
    · exact ih _ hss t ht

/-- **Strings that are appended fit when the last of them does.** -/
theorem fitIn_strcats {n : Nat} {ss : List Bytes} (b : Bytes) : FitIn n b (ss.map .strcat) ↔
    ss = [] ∨ (cstr b).length + (ss.map cstr).flatten.length < n := by
  induction ss generalizing b with
  | nil => exact iff_of_true (fitIn_nil n b) (.inl rfl)
  | cons s ss ih =>
    have hstep : FitIn n b ((s :: ss).map .strcat) ↔
        (cstr b ++ cstr s).length < n ∧ FitIn n (Call.run b (.strcat s)) (ss.map .strcat) := by
      unfold FitIn
      rw [List.map_cons, held, List.forall_mem_cons, cstr_run_strcat]
    rw [hstep, ih, cstr_run_strcat, List.map_cons, List.flatten_cons]
    simp only [List.length_append, reduceCtorEq, false_or]
    constructor
    · rintro ⟨hs, rfl | hss⟩
      · simpa using hs
      · omega
    · intro hss
      exact ⟨by omega, .inr (by omega)⟩

/-- What stands between and in front of the names in a path. -/
theorem cstr_separators : cstr (text "/") = [47] ∧ cstr (text "./") = [46, 47] := by decide +kernel

/-- **A path fits** when its two names have at most 48 bytes together. -/
theorem fitIn_joined {dir_name filename : Bytes} (b : Bytes) (hdir : 0 ∉ dir_name)
    (hfile : 0 ∉ filename) :
    FitIn pathSize b (joined dir_name filename) ↔ dir_name.length + filename.length ≤ 48 := by
  obtain ⟨hslash, -⟩ := cstr_separators
  have hheld : held b (joined dir_name filename)
      = [dir_name, dir_name ++ [47], dir_name ++ [47] ++ filename] := by
    unfold joined
    simp only [held, cstr_run_strcpy, cstr_run_strcat, cstr_of_no_nul hdir, cstr_of_no_nul hfile,
      hslash]
  unfold FitIn pathSize
  rw [hheld]
  simp only [List.forall_mem_cons, List.length_append, List.length_singleton, List.not_mem_nil,
    false_implies, implies_true, and_true]
  omega

theorem fitIn_local {filename : Bytes} (b : Bytes) (h : filename.length ≤ 47) :
    FitIn pathSize b (local_ filename) := by
  obtain ⟨-, hdot⟩ := cstr_separators
  have hheld : held b (local_ filename) = [[46, 47], [46, 47] ++ cstr filename] := by
    unfold local_
    simp only [held, cstr_run_strcpy, cstr_run_strcat, hdot]
  have hle := cstr_length_le filename
  unfold FitIn pathSize
  rw [hheld]
  simp only [List.forall_mem_cons, List.length_append, List.length_cons, List.length_nil,
    List.not_mem_nil, false_implies, implies_true, and_true]
  omega

/-! ## §5. The messages that are copied. -/

theorem text_toString (n : Int) : text (toString n) = decimal n := utf8_toString n

theorem text_lt {s : String} {n : Nat} (h : s.utf8ByteSize < n) : (text s).length < n := by
  rw [text_length]
  exact h

/-- **The answers to writeT are short.** -/
theorem writeMessage_length {string : Bytes} (hstring : string.length ≤ 49) (t bs : Bytes) :
    (writeMessage (atoi t) string bs).length < maxResponseSize := by
  obtain ⟨hlo, hhi⟩ := atoi_range t
  have hnumber : (decimal (atoi t)).length ≤ 10 + 1 := by
    apply decimal_length (by decide)
    omega
  have h1 : (text "Successfully written ").length = 21 := text_length _
  have h2 : (text " at the end of the file").length = 23 := text_length _
  have h3 : (text " at line ").length = 9 := text_length _
  have h4 : (text "Line ").length = 5 := text_length _
  have h5 : (text " does not exist in the file").length = 27 := text_length _
  unfold writeMessage maxResponseSize
  simp only [text_toString]
  split_ifs
  · simp only [List.length_append]
    omega
  · simp only [List.length_append]
    omega
  · simp only [List.length_append]
    omega

theorem writeSays_length (w : World) {string : Bytes} (hstring : string.length ≤ 49)
    (path t : Bytes) : ∀ s ∈ writeSays w path (atoi t) string, s.length < maxResponseSize := by
  have hcreating : (text "Error creating file").length < maxResponseSize := text_lt (by decide)
  have hopening : (text "Error opening file").length < maxResponseSize := text_lt (by decide)
  unfold writeSays
  cases w.fopenRead path with
  | none =>
    simp only
    split_ifs
    · exact List.forall_mem_singleton.mpr hcreating
    · exact List.forall_mem_singleton.mpr (writeMessage_length hstring t [])
  | some file =>
    simp only
    split_ifs
    · exact nofun
    · exact List.forall_mem_singleton.mpr hopening
    · exact List.forall_mem_singleton.mpr (writeMessage_length hstring t file)

theorem killSays_length (w : World) {mem : Memory} (server_pid : Nat)
    (hpids : ∀ i, mem.client_pids i < 2 ^ 31) :
    ∀ s ∈ killSays w mem server_pid, s.length < maxResponseSize := by
  intro s hs
  rcases List.mem_append.mp hs with hs | hs
  · obtain ⟨pid, hpid, rfl⟩ := List.mem_map.mp hs
    obtain ⟨i, -, rfl⟩ := List.mem_map.mp hpid
    have hnumber : (text (toString (mem.client_pids i))).length ≤ 10 := by
      rw [show text (toString (mem.client_pids i)) = digits (mem.client_pids i) from utf8_repr _]
      exact digits_length (by decide) (by have := hpids i; omega)
    have h1 : (text "bye").length = 3 := text_length _
    have h2 : (text "Error sending kill signal to client ").length = 36 := text_length _
    unfold clientSays maxResponseSize
    split
    · omega
    · rw [List.length_append]
      omega
  · obtain rfl := List.mem_singleton.mp hs
    split <;> exact text_lt (by decide)

theorem fitIn_say {s : Bytes} (b : Bytes) (h : s.length < maxResponseSize) :
    FitIn maxResponseSize b [.strcpy s] := by
  have hall : ∀ t ∈ [s], t.length < maxResponseSize := List.forall_mem_singleton.mpr h
  exact fitIn_strcpys b hall

theorem fitIn_text {s : String} (b : Bytes) (h : s.utf8ByteSize < maxResponseSize) :
    FitIn maxResponseSize b [.strcpy (text s)] := fitIn_say b (text_lt h)

/-- A turn that only says something short. -/
theorem fits_say {s : Bytes} (a : Arrays) (h : s.length < maxResponseSize) : Fits a (say s) :=
  ⟨fitIn_nil _ _, fitIn_nil _ _, fitIn_nil _ _, fitIn_say a.message h⟩

theorem archSays_length (w : World) (filename : Bytes) :
    (archSays w filename).length < maxResponseSize := by
  unfold archSays
  rcases w.tar filename with _ | _ | _ <;> exact text_lt (by decide)

/-- The messages of `upload_file_to_server` and its first path fit. -/
theorem upload_fits (w : World) (a : Arrays) {filename dir_name : Bytes} (hdir : 0 ∉ dir_name)
    (hfile : 0 ∉ filename) (hshort : filename.length ≤ 47) :
    Fits a (upload_calls w filename dir_name) ↔
      (w.access (clientPath filename) = true → w.fopenRead (clientPath filename) ≠ none →
        dir_name.length + filename.length ≤ 48) := by
  have hlocal := fitIn_local a.client_path hshort
  have hjoined := fitIn_joined a.server_path hdir hfile
  unfold upload_calls
  simp only
  by_cases haccess : w.access (clientPath filename) = false
  · rw [if_pos haccess]
    refine iff_of_true ⟨fitIn_nil _ _, fitIn_nil _ _, hlocal, fitIn_text _ (by decide)⟩ ?_
    rw [haccess]
    exact nofun
  · rw [if_neg haccess]
    cases w.fopenRead (clientPath filename) with
    | none =>
      exact iff_of_true ⟨fitIn_nil _ _, fitIn_nil _ _, hlocal, fitIn_text _ (by decide)⟩
        fun _ h => absurd rfl h
    | some file =>
      simp only
      rw [← hjoined]
      constructor
      · intro h _ _
        have hpath := h.server_path
        split_ifs at hpath <;> exact hpath
      · intro h
        have hpath := h (by simpa using haccess) (by simp)
        split_ifs
        · exact ⟨fitIn_nil _ _, hpath, hlocal, fitIn_text _ (by decide)⟩
        · exact ⟨fitIn_nil _ _, hpath, hlocal, fitIn_text _ (by decide)⟩
        · exact ⟨fitIn_nil _ _, hpath, hlocal, fitIn_nil _ _⟩
        · exact ⟨fitIn_nil _ _, hpath, hlocal, fitIn_text _ (by decide)⟩

theorem download_paths (w : World) (filename dir_name : Bytes) :
    (download_calls w filename dir_name).path_name = []
      ∧ (download_calls w filename dir_name).server_path = joined dir_name filename
      ∧ (download_calls w filename dir_name).client_path = local_ filename := by
  unfold download_calls
  simp only
  split_ifs
  · exact ⟨rfl, rfl, rfl⟩
  · exact ⟨rfl, rfl, rfl⟩
  · exact ⟨rfl, rfl, rfl⟩
  · cases w.fopenRead (serverPath dir_name filename) <;> exact ⟨rfl, rfl, rfl⟩
  · cases w.fopenRead (serverPath dir_name filename) <;> exact ⟨rfl, rfl, rfl⟩

theorem download_fits (w : World) (a : Arrays) {filename dir_name : Bytes} (hdir : 0 ∉ dir_name)
    (hfile : 0 ∉ filename) (hshort : filename.length ≤ 47) :
    Fits a (download_calls w filename dir_name) ↔ dir_name.length + filename.length ≤ 48 := by
  have hlocal := fitIn_local a.client_path hshort
  rw [← fitIn_joined a.server_path hdir hfile]
  obtain ⟨hpaths, hpath, hlocals⟩ := download_paths w filename dir_name
  have hmessage : FitIn maxResponseSize a.message (download_calls w filename dir_name).message := by
    unfold download_calls
    simp only
    split_ifs
    · exact fitIn_text _ (by decide)
    · exact fitIn_text _ (by decide)
    · exact fitIn_text _ (by decide)
    · cases w.fopenRead (serverPath dir_name filename) with
      | none => exact fitIn_text _ (by decide)
      | some file => exact fitIn_nil _ _
    · cases w.fopenRead (serverPath dir_name filename) with
      | none => exact fitIn_text _ (by decide)
      | some file => exact fitIn_text _ (by decide)
  constructor
  · intro h
    rw [← hpath]
    exact h.server_path
  · intro h
    exact ⟨by rw [hpaths]; exact fitIn_nil _ _, by rw [hpath]; exact h,
      by rw [hlocals]; exact hlocal, hmessage⟩

/-! ## §6. When every string fits. -/

/-- The path of a file of the server has at most 49 bytes. -/
def ShortPath (dir_name file_name : Bytes) : Prop := dir_name.length + file_name.length ≤ 48

/-- Behind what the allocated message happens to hold there is room for the strings appended, if
    there are any. -/
def Appendable (message : Bytes) (ss : List Bytes) : Prop :=
  ss = [] ∨ (cstr message).length + (ss.map cstr).flatten.length < maxResponseSize

/-- What the turn asks for: short paths for a file of the server, room for what is appended. -/
def Room (w : World) (dir_name : Bytes) (req : Request) (message : Bytes) : Prop :=
  match tokens req with
  | [] => True
  | request_word :: args =>
    if request_word = text "list" then Appendable message (listed w dir_name)
    else if request_word = text "readF" then
      match args with
      | [] => True
      | file_name :: args => ShortPath dir_name file_name
          ∧ Appendable message (linesRead w (serverPath dir_name file_name) (lineNumber args))
    else if request_word = text "writeT" ∨ request_word = text "download" then
      ∀ file_name ∈ args.head?, ShortPath dir_name file_name
    else if request_word = text "upload" then
      ∀ filename ∈ args.head?, w.access (clientPath filename) = true →
        w.fopenRead (clientPath filename) ≠ none → ShortPath dir_name filename
    else True

variable {w : World} {dir_name : Bytes} {server_pid : Nat} {mem : Memory} {req : Request}
  {a : Arrays} {word : Bytes} {args : List Bytes}

/-- The other commands ask for nothing. -/
theorem room_other (message : Bytes) (h : tokens req = word :: args)
    (hword : word ∉ [text "list", text "readF", text "writeT", text "download", text "upload"]) :
    Room w dir_name req message := by
  simp only [List.mem_cons, List.not_mem_nil, or_false, not_or] at hword
  obtain ⟨hlist, hread, hwrite, hdownload, hupload⟩ := hword
  unfold Room
  rw [h]
  simp only
  rw [if_neg hlist, if_neg hread, if_neg fun hor => hor.elim hwrite hdownload, if_neg hupload]
  trivial

theorem fitIn_appended (b : Bytes) (ss : List Bytes) :
    FitIn maxResponseSize b (ss.map .strcat) ↔ Appendable b ss := fitIn_strcats b

theorem list_fits (h : tokens req = text "list" :: args) :
    Fits a (handleCalls w dir_name server_pid mem req) ↔ Room w dir_name req a.message := by
  unfold handleCalls Room
  rw [h]
  simp only
  rw [if_neg (text_ne (by decide)), if_neg (text_ne (by decide)), if_pos trivial, if_pos trivial,
    ← fitIn_appended]
  constructor
  · exact fun hfits => hfits.message
  · exact fun hmessage => ⟨fitIn_nil _ _, fitIn_nil _ _, fitIn_nil _ _, hmessage⟩

theorem fits_text {s : String} (a : Arrays) (h : s.utf8ByteSize < maxResponseSize) :
    Fits a (say (text s)) := fits_say a (text_lt h)

theorem invalid_fits (a : Arrays) : Fits a (say (text "Invalid command")) :=
  fits_text a (by decide)

section Words

variable (hdir : 0 ∉ dir_name) (hargs : ∀ arg ∈ args, 0 ∉ arg ∧ arg.length ≤ 45)
include hdir hargs

theorem read_fits (h : tokens req = text "readF" :: args) :
    Fits a (handleCalls w dir_name server_pid mem req) ↔ Room w dir_name req a.message := by
  unfold handleCalls Room
  rw [h]
  simp only
  rw [if_neg (text_ne (by decide)), if_neg (text_ne (by decide)), if_neg (text_ne (by decide)),
    if_pos trivial, if_neg (text_ne (by decide)), if_pos trivial]
  cases args with
  | nil => exact iff_of_true (invalid_fits a) trivial
  | cons file_name args =>
    have hjoined := fitIn_joined a.path_name hdir (hargs file_name List.mem_cons_self).1
    simp only
    rw [← fitIn_appended, ShortPath, ← hjoined]
    constructor
    · exact fun hfits => ⟨hfits.path_name, hfits.message⟩
    · exact fun hroom => ⟨hroom.1, fitIn_nil _ _, fitIn_nil _ _, hroom.2⟩

theorem write_fits (h : tokens req = text "writeT" :: args) :
    Fits a (handleCalls w dir_name server_pid mem req) ↔ Room w dir_name req a.message := by
  unfold handleCalls Room
  rw [h]
  simp only
  iterate 4 rw [if_neg (text_ne (by decide))]
  rw [if_pos trivial, if_neg (text_ne (by decide)), if_neg (text_ne (by decide)),
    if_pos (.inl trivial)]
  match args with
  | [] => exact iff_of_true (invalid_fits a) nofun
  | file_name :: rest =>
    have hjoined := fitIn_joined a.path_name hdir (hargs file_name List.mem_cons_self).1
    have hroom : (∀ name ∈ (file_name :: rest).head?, ShortPath dir_name name)
        ↔ FitIn pathSize a.path_name (joined dir_name file_name) := by
      rw [hjoined]
      simp [ShortPath]
    rw [hroom]
    match rest with
    | [] =>
      constructor
      · exact fun hfits => hfits.path_name
      · exact fun hpath => ⟨hpath, fitIn_nil _ _, fitIn_nil _ _, fitIn_text _ (by decide)⟩
    | [_] =>
      constructor
      · exact fun hfits => hfits.path_name
      · exact fun hpath => ⟨hpath, fitIn_nil _ _, fitIn_nil _ _, fitIn_text _ (by decide)⟩
    | temp :: string :: rest =>
      have hstring := (hargs string (by simp)).2
      constructor
      · exact fun hfits => hfits.path_name
      · exact fun hpath => ⟨hpath, fitIn_nil _ _, fitIn_nil _ _,
          fitIn_strcpys _ (writeSays_length w (by omega) _ temp)⟩

theorem transfer_fits (h : tokens req = text "upload" :: args ∨ tokens req = text "download" :: args) :
    Fits a (handleCalls w dir_name server_pid mem req) ↔ Room w dir_name req a.message := by
  unfold handleCalls Room
  rcases h with h | h
  · rw [h]
    simp only
    iterate 5 rw [if_neg (text_ne (by decide))]
    rw [if_pos trivial, if_neg (text_ne (by decide)), if_neg (text_ne (by decide)),
      if_neg (not_or.mpr ⟨text_ne (by decide), text_ne (by decide)⟩), if_pos trivial]
    cases args with
    | nil => exact iff_of_true (invalid_fits a) nofun
    | cons filename args =>
      obtain ⟨hnul, hlen⟩ := hargs filename List.mem_cons_self
      simp only
      rw [upload_fits w a hdir hnul (by omega)]
      simp [ShortPath]
  · rw [h]
    simp only
    iterate 6 rw [if_neg (text_ne (by decide))]
    rw [if_pos trivial, if_neg (text_ne (by decide)), if_neg (text_ne (by decide)),
      if_pos (.inr trivial)]
    cases args with
    | nil => exact iff_of_true (invalid_fits a) nofun
    | cons filename args =>
      obtain ⟨hnul, hlen⟩ := hargs filename List.mem_cons_self
      simp only
      rw [download_fits w a hdir hnul (by omega)]
      simp [ShortPath]

end Words

/-- The other turns say something short, if anything. -/
theorem other_fits (a : Arrays) (hpids : ∀ i, mem.client_pids i < 2 ^ 31)
    (h : tokens req = word :: args)
    (hword : word ∉ [text "list", text "readF", text "writeT", text "download", text "upload"]) :
    Fits a (handleCalls w dir_name server_pid mem req) := by
  simp only [List.mem_cons, List.not_mem_nil, or_false, not_or] at hword
  obtain ⟨hlist, hread, hwrite, hdownload, hupload⟩ := hword
  unfold handleCalls
  rw [h]
  simp only
  rw [if_neg hlist, if_neg hread, if_neg hwrite, if_neg hupload, if_neg hdownload]
  split_ifs
  · exact fits_text a (by decide)
  · exact fits_text a (by decide)
  · cases args with
    | nil => exact invalid_fits a
    | cons filename args => exact fits_say a (archSays_length w filename)
  · exact ⟨fitIn_nil _ _, fitIn_nil _ _, fitIn_nil _ _,
      fitIn_strcpys _ (killSays_length w server_pid hpids)⟩
  · exact invalid_fits a

/-- The words behind the command. -/
theorem args_short (hreq : (cstr req.command).length ≤ 49) (h : tokens req = word :: args)
    (hword : 4 ≤ word.length) : ∀ arg ∈ args, 0 ∉ arg ∧ arg.length ≤ 45 := by
  intro arg harg
  have hmem : arg ∈ words 32 (cstr req.command) := by
    show arg ∈ tokens req
    rw [h]
    exact List.mem_cons_of_mem _ harg
  have htotal : (word :: args).flatten.length ≤ 49 := by
    rw [← h]
    exact (words_length 32 _).trans hreq
  have hle : arg.length ≤ args.flatten.length := by
    obtain ⟨front, back, rfl⟩ := List.append_of_mem harg
    simp only [List.flatten_append, List.flatten_cons, List.length_append]
    omega
  rw [List.flatten_cons, List.length_append] at htotal
  refine ⟨fun h0 => ?_, by omega⟩
  have hnul := List.mem_takeWhile_imp ((words_spec hmem).2 0 h0).1
  exact absurd hnul (by decide)

/-- **When every string fits its array**, for every name of the directory, every request of at most
    49 bytes, every system and every content of the arrays. -/
theorem fits_iff (w : World) (dir_name : CString) (server_pid : Nat) (mem : Memory) (req : Request)
    (a : Arrays) (hreq : (cstr req.command).length ≤ 49)
    (hpids : ∀ i, mem.client_pids i < 2 ^ 31) :
    Fits a (handleCalls w dir_name.bytes server_pid mem req)
      ↔ Room w dir_name.bytes req a.message := by
  cases htokens : tokens req with
  | nil =>
    unfold handleCalls Room
    rw [htokens]
    exact iff_of_true ⟨fitIn_nil _ _, fitIn_nil _ _, fitIn_nil _ _, fitIn_nil _ _⟩ trivial
  | cons word args =>
    by_cases hword : word ∈
        [text "list", text "readF", text "writeT", text "download", text "upload"]
    · have hlong : ∀ c ∈ [text "list", text "readF", text "writeT", text "download",
          text "upload"], 4 ≤ c.length := by
        simp only [List.forall_mem_cons, text_length]
        decide
      have hargs := args_short hreq htokens (hlong word hword)
      simp only [List.mem_cons, List.not_mem_nil, or_false] at hword
      rcases hword with rfl | rfl | rfl | rfl | rfl
      · exact list_fits htokens
      · exact read_fits dir_name.no_nul hargs htokens
      · exact write_fits dir_name.no_nul hargs htokens
      · exact transfer_fits dir_name.no_nul hargs (.inr htokens)
      · exact transfer_fits dir_name.no_nul hargs (.inl htokens)
    · exact iff_of_true (other_fits a hpids htokens hword) (room_other a.message htokens hword)

/-! ## §7. Sample directories. -/

/-- The answer of `mkdir(dir_name, 0777)`. -/
inductive Mkdir
  | created
  | present
  | failed

/-- The directory with which `main` goes on to serve clients. -/
def accepted (mkdir : Bytes → Mkdir) (argv : List Bytes) : Option Bytes :=
  match argv with
  | _ :: dir_name :: max_client_count :: rest =>
    if atoi max_client_count ≤ 0 then none
    else if rest ≠ [] then none
    else match mkdir dir_name with
      | .failed => none
      | _ => some dir_name
  -- `argv[1]` or `argv[2]` is a null pointer
  | _ => none

/-- `readF a` in the directory `d`, with a zeroed response. -/
theorem fits_iff_short :
    Fits ⟨[], [], [], [0]⟩ (handleCalls Responses.bareWorld [100] 1 ⟨fun _ => 2, 1⟩
        ⟨text "readF a", 2⟩)
      ↔ Room Responses.bareWorld [100] ⟨text "readF a", 2⟩ [0] :=
  fits_iff Responses.bareWorld ⟨[100], by decide⟩ 1 ⟨fun _ => 2, 1⟩ ⟨text "readF a", 2⟩
    ⟨[], [], [], [0]⟩ (by decide +kernel) fun _ => (by decide : 2 < 2 ^ 31)

/-- **A long directory name**: with 48 bytes of it, the path of a file with a name of one byte does
    not fit. -/
theorem long_directory_overflows : ¬ ∀ (w : World) (mkdir : Bytes → Mkdir) (argv : List Bytes)
    (dir_name : CString) (server_pid : Nat) (mem : Memory) (req : Request) (a : Arrays),
    accepted mkdir argv = some dir_name.bytes → (cstr req.command).length ≤ 49 →
      (∀ i, mem.client_pids i < 2 ^ 31) →
      Fits a (handleCalls w dir_name.bytes server_pid mem req) := by
  intro hclaim
  have hdir : (0 : UInt8) ∉ List.replicate 48 100 := by decide
  have hstarted : accepted (fun _ => .created) [text "server", List.replicate 48 100, text "5"]
      = some (List.replicate 48 100) := by decide +kernel
  have hfits := hclaim Responses.bareWorld (fun _ => .created)
    [text "server", List.replicate 48 100, text "5"] ⟨List.replicate 48 100, hdir⟩ 1
    ⟨fun _ => 2, 1⟩ ⟨text "readF a", 2⟩ ⟨[], [], [], [0]⟩ hstarted (by decide +kernel)
    fun _ => (by decide : 2 < 2 ^ 31)
  have htokens : tokens ⟨text "readF a", 2⟩ = text "readF" :: [[97]] := by decide +kernel
  have hroom := (read_fits hdir (args_short (by decide +kernel) htokens (by decide +kernel))
    htokens).mp hfits
  unfold Room at hroom
  rw [htokens] at hroom
  simp only at hroom
  rw [if_neg (text_ne (by decide)), if_pos trivial] at hroom
  exact absurd hroom.1 (by unfold ShortPath; decide)

end SystemOS.FileServer.Capacity
