/-
  SystemOS.FileServer.Handler — one request in the handler process of a client.

  `handleClient` reads a request, allocates a response whose bytes it does not initialise, lets one
  of the functions below write or append to its message, and sends it at the bottom of the loop.
  Each definition carries the name of the C function it translates.

  What the operating system answers is in `World`.  The temporary file of `write_server_file` is taken
  to be there here; what becomes of a turn without one, and of the response, is in `Responses`.
-/
import SystemOS.Lib.Strings
import SystemOS.Lib.Buffers
import SystemOS.FileServer.FileRequests

namespace SystemOS.FileServer.Handler

open SystemOS.Lib.Lines SystemOS.Lib.Strings SystemOS.Lib.Buffers
open SystemOS.FileServer.FileRequests (text readMessage writeMessage newFile)

/-! ## §1. Requests, responses and the system. -/

/-- `struct request`: what the command array holds, and the sender. -/
structure Request where
  command : Bytes
  cl_pid : Nat

/-- `MAX_RESPONSE_SIZE`. -/
def maxResponseSize : Nat := 1024

/-- The message that the client reads from a response. -/
def received (message : Bytes) : Bytes := seen maxResponseSize message

/-- The globals of `server.c`; each process has its own. -/
structure Memory where
  client_pids : Nat → Nat
  active_clients : Int

/-- The answers of the operating system, by path and by pid. -/
structure World where
  /-- The entries of a directory, regular files marked; `none` when it cannot be opened. -/
  opendir : Bytes → Option (List (Bytes × Bool))
  /-- `access(path, F_OK) != -1`. -/
  access : Bytes → Bool
  /-- The file that `fopen(path, "r")` opens. -/
  fopenRead : Bytes → Option Bytes
  /-- `fopen(path, "w")` succeeds. -/
  fopenWrite : Bytes → Bool
  /-- `flock` on the open file does not return -1. -/
  flock : Bytes → Bool
  /-- Whether `tar` ended with success; `none` when `fork` failed. -/
  tar : Bytes → Option Bool
  /-- `kill(pid, SIGINT) == 0`. -/
  kill : Nat → Bool

/-- The message buffer after a request, and the files written, by path. -/
structure Reply where
  message : Bytes
  written : List (Bytes × Bytes)

/-- A message and no file. -/
def answer (message : Bytes) : Reply := ⟨message, []⟩

/-! ## §2. The functions behind the commands. -/

def list_server_files (w : World) (message dir_name : Bytes) : Reply :=
  match w.opendir dir_name with
  | none => answer message
  | some entries =>
    answer (entries.foldl (fun b entry =>
      if entry.2 then strcat (strcat b entry.1) (text "\n") else b) message)

def read_server_file (w : World) (message path_name : Bytes) (lineNum : Int) : Reply :=
  match w.fopenRead path_name with
  | none => answer message
  | some file =>
    if w.flock path_name = false then answer message
    else if lineNum = 0 then answer (strcats message ((lines 99 file).map cstr))
    else if lineNum < 0 then answer message
    else match (lines 99 file)[lineNum.toNat - 1]? with
      | some line => answer (strcat message (cstr line))
      | none => answer message

def write_server_file (w : World) (message path_name : Bytes) (lineNum : Int) (string : Bytes) :
    Reply :=
  match w.fopenRead path_name with
  | none =>
    if w.fopenWrite path_name = false then answer (strcpy message (text "Error creating file"))
    -- the new file stays empty: the loop over the lines is in the other branch
    else ⟨strcpy message (writeMessage lineNum string []), [(path_name, [])]⟩
  | some file =>
    if w.flock path_name = false then answer message
    else if w.fopenWrite path_name = false then
      answer (strcpy message (text "Error opening file"))
    else ⟨strcpy message (writeMessage lineNum string file),
      [(path_name, newFile lineNum string file)]⟩

/-- What a loop of `fgets` and `fprintf("%s")` copies, with a line of 256 bytes. -/
def copied (file : Bytes) : Bytes := ((lines 255 file).map cstr).flatten

def clientPath (filename : Bytes) : Bytes := text "./" ++ filename

def serverPath (dir_name filename : Bytes) : Bytes := dir_name ++ text "/" ++ filename

def upload_file_to_server (w : World) (message filename dir_name : Bytes) : Reply :=
  let client_path := clientPath filename
  let server_path := serverPath dir_name filename
  if w.access client_path = false then
    answer (strcpy message
      (text "Error: No file in client's directory with the given filename!\n"))
  else match w.fopenRead client_path with
    | none => answer (strcpy message (text "Error opening client file"))
    | some client_file =>
      if w.access server_path then
        answer (strcpy message (text "Error: File already exists on the server!\n"))
      else if w.fopenWrite server_path = false then
        answer (strcpy message (text "Error opening server file"))
      else if w.flock server_path = false then ⟨message, [(server_path, [])]⟩
      else ⟨strcpy message (text "File uploaded successfully"), [(server_path, copied client_file)]⟩

def download_file_from_server (w : World) (message filename dir_name : Bytes) : Reply :=
  let client_path := clientPath filename
  let server_path := serverPath dir_name filename
  if w.access client_path then
    answer (strcpy message (text "Error: File already exists on the client!\n"))
  else if w.access server_path = false then
    answer (strcpy message
      (text "Error: No file in server's directory with the given filename!\n"))
  else if w.fopenWrite client_path = false then
    answer (strcpy message (text "Error opening client file"))
  else match w.fopenRead server_path with
    | none => ⟨strcpy message (text "Error opening server file"), [(client_path, [])]⟩
    | some server_file =>
      if w.flock server_path = false then ⟨message, [(client_path, [])]⟩
      else ⟨strcpy message (text "File downloaded successfully"),
        [(client_path, copied server_file)]⟩

def arch_server_files (w : World) (message filename : Bytes) : Reply :=
  match w.tar filename with
  | none => answer (strcpy message (text "Error: Fork failed"))
  | some true => answer (strcpy message (text "Files archived successfully"))
  | some false => answer (strcpy message (text "Error: Archiving failed"))

/-- `kill_server`, with the processes it sends SIGINT to. -/
def kill_server (w : World) (mem : Memory) (server_pid : Nat) (message : Bytes) :
    Bytes × Memory × List Nat :=
  let clients := (List.range mem.active_clients.toNat).map mem.client_pids
  let message := clients.foldl (fun b pid =>
    if w.kill pid then strcpy b (text "bye")
    else strcpy b (text "Error sending kill signal to client " ++ text (toString pid))) message
  let message :=
    if w.kill server_pid then
      strcpy message (text "Kill server signal received. Server shutting down...\n")
    else strcpy message (text "Error sending kill signal to the server")
  (message, { mem with active_clients := 0 }, clients ++ [server_pid])

/-! ## §3. The body of the loop. -/

def isspace (c : UInt8) : Bool := c == 32 || (9 ≤ c && c ≤ 13)

def isdigit (c : UInt8) : Bool := 48 ≤ c && c ≤ 57

def digitsValue (s : Bytes) : Int := s.foldl (fun n c => 10 * n + (c.toNat - 48 : Nat)) 0

/-- `atoi`, as `(int) strtol(s, NULL, 10)`: a `long` that saturates, cut to 32 bits. -/
def atoi (s : Bytes) : Int :=
  let s := s.dropWhile isspace
  let value := match s with
    | 45 :: s => - digitsValue (s.takeWhile isdigit)
    | 43 :: s => digitsValue (s.takeWhile isdigit)
    | s => digitsValue (s.takeWhile isdigit)
  (max (-2 ^ 63) (min (2 ^ 63 - 1) value)).bmod (2 ^ 32)

/-- The line number in the words behind a file name. -/
def lineNumber : List Bytes → Int
  | [] => 0
  | temp :: _ => atoi temp

/-- What `strtok` returns for a command, one word after the other. -/
def tokens (req : Request) : List Bytes := words 32 (cstr req.command)

/-- How one turn of the loop ends. -/
inductive Turn
  /-- `strcmp` is called with the null pointer that `strtok` returned. -/
  | crashed
  /-- The `break` of `quit`, in front of `sendResponse`. -/
  | broken (mem : Memory)
  /-- A response is sent; `done` ends the loop. -/
  | replied (reply : Reply) (done : Bool) (mem : Memory) (signalled : List Nat)

def invalidCommand (message : Bytes) : Reply := answer (strcpy message (text "Invalid command"))

/-- One turn of the loop of `handleClient`, with the bytes of the allocated message. -/
def handleRequest (w : World) (dir_name : Bytes) (server_pid : Nat) (mem : Memory) (req : Request)
    (message : Bytes) : Turn :=
  let reply := fun r : Reply => Turn.replied r false mem []
  match tokens req with
  | [] => .crashed
  | request_word :: args =>
    if request_word = text "help" then
      reply (answer (strcpy message (text ("Available commands are :\nhelp, list, readF, writeT, " ++
        "upload, download, archServer, quit, killServer\n"))))
    else if request_word = text "quit" then .broken mem
    else if request_word = text "list" then reply (list_server_files w message dir_name)
    else if request_word = text "readF" then
      match args with
      | [] => reply (invalidCommand message)
      | file_name :: args =>
        reply (read_server_file w message (serverPath dir_name file_name) (lineNumber args))
    else if request_word = text "writeT" then
      match args with
      | file_name :: temp :: string :: _ =>
        reply (write_server_file w message (serverPath dir_name file_name) (atoi temp) string)
      | _ => reply (invalidCommand message)
    else if request_word = text "upload" then
      match args with
      | [] => reply (invalidCommand message)
      | filename :: _ => reply (upload_file_to_server w message filename dir_name)
    else if request_word = text "download" then
      match args with
      | [] => reply (invalidCommand message)
      | filename :: _ => reply (download_file_from_server w message filename dir_name)
    else if request_word = text "archServer" then
      match args with
      | [] => reply (invalidCommand message)
      | filename :: _ => reply (arch_server_files w message filename)
    else if request_word = text "killServer" then
      let (message, mem, signalled) := kill_server w mem server_pid message
      .replied (answer message) true { mem with active_clients := mem.active_clients - 1 } signalled
    else reply (invalidCommand message)

end SystemOS.FileServer.Handler
