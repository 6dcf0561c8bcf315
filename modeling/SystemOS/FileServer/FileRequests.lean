/-
  SystemOS.FileServer.FileRequests — readF and writeT on one file, system call by system call.

  A handler process executes `read_server_file` or `write_server_file` on an existing file.  The
  kernel grants `flock` as an advisory lock on the open file description; closing the descriptor
  releases it.  `write_server_file` closes the descriptor that it locked and opens the file again
  for the rewriting; the `LOCK_UN` on that second descriptor, which holds no lock, has no effect and
  is not a step.

  What a process computes from the bytes it has read (the answer, the new file) is in §1, the
  interleaved system calls are in §3.
-/
import SystemOS.Lib.Lines
import SystemOS.Lib.Serial
import SystemOS.Lib.Transition
import SystemOS.Lib.Utf8

namespace SystemOS.FileServer.FileRequests

open SystemOS.Lib.Lines SystemOS.Lib.Serial SystemOS.Lib.Transition SystemOS.Lib.Utf8

/-! ## §1. What a request computes from a file. -/

/-- A request as the handler has parsed it.  `message0` is the string that the response buffer holds
    when `read_server_file` starts to append to it. -/
inductive Request
  | readF (message0 : Bytes) (lineNum : Int)
  | writeT (lineNum : Int) (string : Bytes)

def text (s : String) : Bytes := s.toUTF8.toList

theorem text_ne {s t : String} (h : s ≠ t) : text s ≠ text t := fun heq => h (utf8_inj.mp heq)

theorem text_length (s : String) : (text s).length = s.utf8ByteSize := utf8_length s

/-- `read_server_file`: lines of at most 99 bytes are appended to the message. -/
def readMessage (message0 : Bytes) (lineNum : Int) (bs : Bytes) : Bytes :=
  if lineNum = 0 then message0 ++ ((lines 99 bs).map cstr).flatten
  else if lineNum < 0 then message0
  else match (lines 99 bs)[lineNum.toNat - 1]? with
    | some line => message0 ++ cstr line
    | none => message0

/-- The loop of `write_server_file` over the lines of the file: the temporary file, whether the
    line was written, and `line_count` at the end. -/
def editLines (lineNum : Int) (string : Bytes) : Nat → List Bytes → Bytes × Bool × Nat
  | line_count, [] => ([], false, line_count)
  | line_count, line :: rest =>
    let (temp, written, total) := editLines lineNum string (line_count + 1) rest
    if ((line_count + 1 : Nat) : Int) = lineNum then (string ++ [10] ++ temp, true, total)
    else (cstr line ++ temp, written, total)

/-- The temporary file. -/
def tempFile (lineNum : Int) (string : Bytes) (bs : Bytes) : Bytes :=
  let (temp, _, line_count) := editLines lineNum string 0 (lines 255 bs)
  if lineNum ≤ 0 ∨ lineNum > line_count then temp ++ string ++ [10] else temp

/-- What is copied back from the temporary file. -/
def newFile (lineNum : Int) (string : Bytes) (bs : Bytes) : Bytes :=
  ((lines 255 (tempFile lineNum string bs)).map cstr).flatten

def writeMessage (lineNum : Int) (string : Bytes) (bs : Bytes) : Bytes :=
  let (_, line_written, _) := editLines lineNum string 0 (lines 255 bs)
  if lineNum = 0 then
    text "Successfully written " ++ string ++ text " at the end of the file"
  else if line_written then
    text "Successfully written " ++ string ++ text " at line " ++ text (toString lineNum)
  else text "Line " ++ text (toString lineNum) ++ text " does not exist in the file"

/-- A request executed alone: the file afterwards and the answer. -/
def serve : Request → Bytes → Bytes × Bytes
  | .readF message0 lineNum, bs => (bs, readMessage message0 lineNum bs)
  | .writeT lineNum string, bs => (newFile lineNum string bs, writeMessage lineNum string bs)

/-- The reading loop ends before the end of the file: the line asked for has been read. -/
def Request.satisfied : Request → Bytes → Bool
  | .readF _ lineNum, got => decide (lineNum ≠ 0) && firstComplete 99 lineNum.toNat got
  | .writeT _ _, _ => false

/-- Then the answer does not depend on the rest of the file. -/
theorem serve_of_satisfied {r : Request} {got : Bytes} (t : Bytes) (h : r.satisfied got = true) :
    (serve r (got ++ t)).2 = (serve r got).2 := by
  cases r with
  | writeT _ _ => cases h
  | readF message0 lineNum =>
    simp only [Request.satisfied, Bool.and_eq_true, decide_eq_true_eq] at h
    obtain ⟨hne, hfirst⟩ := h
    show readMessage _ _ _ = readMessage _ _ _
    unfold readMessage
    rw [if_neg hne, if_neg hne]
    by_cases hneg : lineNum < 0
    · rw [if_pos hneg, if_pos hneg]
    · rw [if_neg hneg, if_neg hneg, getElem_lines_append t hfirst (by omega)]

/-! ## §2. Processes. -/

def Request.isWrite : Request → Bool
  | .readF _ _ => false
  | .writeT _ _ => true

/-- Where a process is in its request. -/
inductive ProcAt
  -- before `fopen(path_name, "r")`
  | start
  -- before `flock`
  | opened
  -- the lock is held; `got` has been read
  | reading (got : Bytes)
  -- the loop is over; the lock is still held
  | readEnded (got : Bytes)
  -- readF: after `LOCK_UN`, before `fclose`
  | unlocked (got : Bytes)
  -- writeT: after the first `fclose`, before `fopen(path_name, "w")`
  | released (new message : Bytes)
  -- writeT: the file has been truncated; `off` bytes of `new` have been written
  | rewriting (new : Bytes) (off : Nat) (message : Bytes)
  | finished (message : Bytes)

/-- The process is between the two `fclose` calls of `write_server_file`. -/
def ProcAt.inWindow : ProcAt → Bool
  | .released _ _ | .rewriting _ _ _ => true
  | _ => false

/-- The process holds a lock on the file. -/
def ProcAt.holdsLock : ProcAt → Bool
  | .reading _ | .readEnded _ => true
  | _ => false

structure State where
  content : Bytes
  procs : Nat → ProcAt

def State.setProc (s : State) (p : Nat) (a : ProcAt) : State :=
  { s with procs := Function.update s.procs p a }

/-- `flock`: shared locks exclude an exclusive one, an exclusive lock excludes every other. -/
def Grantable (reqs : Nat → Request) (s : State) (p : Nat) : Prop :=
  ∀ q, (s.procs q).holdsLock = true → (reqs p).isWrite = false ∧ (reqs q).isWrite = false

/-- A `write` at offset `off`; a hole reads as zeros. -/
def writeAt (content : Bytes) (off : Nat) (chunk : Bytes) : Bytes :=
  content.take off ++ List.replicate (off - content.length) 0 ++ chunk
    ++ content.drop (off + chunk.length)

/-! ## §3. The system calls. -/

inductive Call
  | fopenRead
  | flock
  | read
  | leaveLoop
  | flockUnlock
  | fclose
  | fopenWrite
  | write
  deriving DecidableEq

/-- One system call of process `p`, with request `reqs p`. -/
inductive Step (reqs : Nat → Request) (s : State) (p : Nat) : Call → State → Prop
  | open : s.procs p = .start → Step reqs s p .fopenRead (s.setProc p .opened)
  | lock : s.procs p = .opened → Grantable reqs s p →
      Step reqs s p .flock (s.setProc p (.reading []))
  -- `read` returns some of the bytes that follow
  | read {got : Bytes} (k : Nat) : s.procs p = .reading got → (reqs p).satisfied got = false →
      got.length < s.content.length → 0 < k →
      Step reqs s p .read (s.setProc p (.reading (got ++ (s.content.drop got.length).take k)))
  -- `read` returns 0
  | readEnd {got : Bytes} : s.procs p = .reading got → (reqs p).satisfied got = false →
      s.content.length ≤ got.length → Step reqs s p .read (s.setProc p (.readEnded got))
  | leaveLoop {got : Bytes} : s.procs p = .reading got → (reqs p).satisfied got = true →
      Step reqs s p .leaveLoop (s.setProc p (.readEnded got))
  | unlock {got : Bytes} : s.procs p = .readEnded got → (reqs p).isWrite = false →
      Step reqs s p .flockUnlock (s.setProc p (.unlocked got))
  | closeRead {got : Bytes} : s.procs p = .unlocked got →
      Step reqs s p .fclose (s.setProc p (.finished (serve (reqs p) got).2))
  -- the descriptor that carries the lock is closed
  | closeFirst {got : Bytes} : s.procs p = .readEnded got → (reqs p).isWrite = true →
      Step reqs s p .fclose
        (s.setProc p (.released (serve (reqs p) got).1 (serve (reqs p) got).2))
  -- `fopen(path_name, "w")` truncates the file
  | reopen {new message : Bytes} : s.procs p = .released new message →
      Step reqs s p .fopenWrite { s.setProc p (.rewriting new 0 message) with content := [] }
  | write {new message : Bytes} {off : Nat} (k : Nat) : s.procs p = .rewriting new off message →
      off < new.length → 0 < k →
      Step reqs s p .write
        { s.setProc p (.rewriting new (off + ((new.drop off).take k).length) message) with
          content := writeAt s.content off ((new.drop off).take k) }
  | closeLast {new message : Bytes} : s.procs p = .rewriting new new.length message →
      Step reqs s p .fclose (s.setProc p (.finished message))

/-- The file with initial content `content` under any number of requests. -/
def fileSystem (reqs : Nat → Request) (content : Bytes) : System State (Nat × Call) where
  init s := s = ⟨content, fun _ => .start⟩
  step s l s' := Step reqs s l.1 l.2 s'

end SystemOS.FileServer.FileRequests
