/-
  SystemOS.Grades.Shell — the grade management system.

  `main` reads a line, takes it apart with `strtok` and runs the command in a child process, which
  takes its own copy of the line apart again.  Beside what a command prints and what it leaves in
  the files, the model keeps what it hands to `strcmp`, `strcpy`, `atoi` and `open` as tokens, and
  where `sortStudentGrades` stores lines: a process that uses a NULL token, or stores a line outside
  its array, is killed there; `open` of NULL fails.

  A path names one file, standard output is a terminal, `fork` and the reads of an open file
  succeed, and messages to standard error are left out.
-/
import Mathlib.Logic.Function.Basic
import SystemOS.Lib.Lines
import SystemOS.Lib.Strtok

namespace SystemOS.Grades.Shell

open SystemOS.Lib.Lines SystemOS.Lib.Strtok

/-! ## §1. Files, tokens and output. -/

def MAX_LEN : Nat := 50

def text (s : String) : Bytes := s.toUTF8.toList

/-- The second argument of the calls of `open`. -/
inductive Flags
  | rdonly
  | rdonlyCreat
  | wronlyAppend
  | rdwr
  | wronlyCreatAppend

def Flags.creates : Flags → Bool
  | .rdonlyCreat | .wronlyCreatAppend => true
  | _ => false

/-- What is in the files, and what the system allows. -/
structure Files where
  content : Bytes → Option Bytes
  permitted : Flags → Bytes → Bool

/-- What `open` finds, and the files afterwards. -/
def Files.open_ (fs : Files) (flags : Flags) : Option Bytes → Option (Bytes × Files)
  | none => none
  | some path =>
    if fs.permitted flags path then
      match fs.content path with
      | some bytes => some (bytes, fs)
      | none =>
        if flags.creates then
          some ([], { fs with content := Function.update fs.content path (some []) })
        else none
    else none

/-- `write` at the end of an open file. -/
def Files.append (fs : Files) (path bytes : Bytes) : Files :=
  { fs with content := Function.update fs.content path ((fs.content path).map (· ++ bytes)) }

/-- What is handed to a function that needs a string, and the stores of `sortStudentGrades`. -/
inductive Use
  | strcmp (a b : Option Bytes)
  | strcpy (source : Option Bytes)
  | atoi (s : Option Bytes)
  | open_ (path : Option Bytes)
  | store (index : Nat)

/-- No NULL, and inside `lines[100]`. -/
def Use.ok : Use → Bool
  | .strcmp a b => a.isSome && b.isSome
  | .strcpy source => source.isSome
  | .atoi s => s.isSome
  | .open_ path => path.isSome
  | .store index => index < 100

/-- A call of `printf`: a fixed text, the text of the manual, three tokens, or a line. -/
inductive Output
  | text (s : Bytes)
  | manual
  | record (name surname grade : Option Bytes)
  | line (s : Bytes)

/-- What a command has done. -/
structure Ran where
  uses : List Use
  stdout : List Output
  files : Files

/-! ## §2. The commands. -/

/-- `saveToLog`, with the number of processes that return from it: when the log cannot be opened,
the process made for it goes on as well. -/
def saveToLog (fs : Files) (event : Bytes) : Files × Nat :=
  match fs.open_ .wronlyCreatAppend (some (text "log.log")) with
  | none => (fs, 2)
  | some (_, fs) => (fs.append (text "log.log") event, 1)

/-- The end of a child process that has succeeded. -/
def completed (uses : List Use) (stdout : List Output) (fs : Files) (event : Bytes) : Ran :=
  let (fs, processes) := saveToLog fs event
  ⟨uses, stdout ++ List.replicate processes (.text (text "Operation finished successfully.\n")), fs⟩

/-- The end of a child process that could not open its file. -/
def failed (uses : List Use) (stdout : List Output) (fs : Files) (event : Bytes) : Ran :=
  ⟨uses, stdout, (saveToLog fs event).1⟩

def createFile (fs : Files) (buf : Bytes) : Ran :=
  let (_, rest) := strtok 32 buf
  let (arg1, _) := strtok 32 rest
  match fs.open_ .rdonlyCreat arg1 with
  | none => failed [.open_ arg1] [] fs (text "- Failed to create file\n")
  | some (_, fs) =>
    completed [.open_ arg1] [] fs (text "- Child process completed file creation\n")

def addStudentGrade (fs : Files) (buf : Bytes) : Ran :=
  let (_, rest) := strtok 32 buf
  let (arg1, rest) := strtok 32 rest
  let (arg2, rest) := strtok 32 rest
  let (arg3, rest) := strtok 32 rest
  let (arg4, _) := strtok 32 rest
  match fs.open_ .wronlyAppend arg4 with
  | none => failed [.open_ arg4] [] fs (text "- Failed to open file for adding student grade\n")
  | some (_, fs) =>
    -- a fifth word has four before it
    let buffer := (arg1.getD [] ++ text " " ++ arg2.getD [] ++ text ", " ++ arg3.getD []
      ++ text "\n").take (MAX_LEN - 1)
    completed [.open_ arg4] [] (fs.append (arg4.getD []) buffer)
      (text "- Child process completed adding student grade\n")

/-- The lines that the readers make of a file: up to a newline, or as many as the buffer holds; the
byte that finds it full is dropped, and so is what is pending at the end. -/
def records (line : Bytes) : Bytes → List Bytes
  | [] => []
  | ch :: rest =>
    if ch = 10 ∨ line.length ≥ MAX_LEN - 1 then cstr line :: records [] rest
    else records (line ++ [ch]) rest

/-- How the loop of `searchStudentGrade` ends. -/
inductive Search
  | found (name surname : Bytes) (grade : Option Bytes)
  | notFound
  | killed

def searchLoop (arg1 arg2 : Option Bytes) : List Bytes → List Use × Search
  | [] => ([], .notFound)
  | line :: lines =>
    let (name, rest) := strtok 32 line
    let (surname, rest) := strtok 44 rest
    let (grade, _) := strtok 32 rest
    match name, arg1 with
    | some name', some arg1' =>
      if name' = arg1' then
        match surname, arg2 with
        | some surname', some arg2' =>
          if surname' = arg2' then
            ([.strcmp name arg1, .strcmp surname arg2], .found name' surname' grade)
          else
            let (uses, search) := searchLoop arg1 arg2 lines
            (.strcmp name arg1 :: .strcmp surname arg2 :: uses, search)
        | _, _ => ([.strcmp name arg1, .strcmp surname arg2], .killed)
      else
        let (uses, search) := searchLoop arg1 arg2 lines
        (.strcmp name arg1 :: uses, search)
    | _, _ => ([.strcmp name arg1], .killed)

def searchStudentGrade (fs : Files) (buf : Bytes) : Ran :=
  let (_, rest) := strtok 32 buf
  let (arg1, rest) := strtok 32 rest
  let (arg2, rest) := strtok 32 rest
  let (arg3, _) := strtok 32 rest
  match fs.open_ .rdonly arg3 with
  | none =>
    failed [.open_ arg3] [] fs (text "- Failed to open file for searching student grade\n")
  | some (content, fs) =>
    let event := text "- Child process completed searching student grade\n"
    match searchLoop arg1 arg2 (records [] content) with
    | (uses, .killed) => ⟨.open_ arg3 :: uses, [], fs⟩
    | (uses, .found name surname grade) =>
      completed (.open_ arg3 :: uses) [.record (some name) (some surname) grade] fs event
    | (uses, .notFound) =>
      completed (.open_ arg3 :: uses) [.text (text "Student not found in the file.\n")] fs event

/-- The stores into `lines`, as far as the one outside it. -/
def stores (lines : Nat) : List Use := (List.range (min lines 101)).map .store

/-- `strcmp(a, b) > 0`. -/
def strcmpPos : Bytes → Bytes → Bool
  | [], _ => false
  | _ :: _, [] => true
  | a :: as, b :: bs => if a = b then strcmpPos as bs else b < a

/-- The body of the sorting loops: the lines afterwards, unless the process is killed. -/
def compareSwap (lines : List Bytes) (i j : Nat) : Use × Option (List Bytes) :=
  let (name1, _) := strtok 32 (lines.getD i [])
  let (name2, _) := strtok 32 (lines.getD j [])
  (.strcmp name1 name2,
    match name1, name2 with
    | some a, some b =>
      some (if strcmpPos a b then (lines.set i (lines.getD j [])).set j (lines.getD i []) else lines)
    | _, _ => none)

def sortLoop : List (Nat × Nat) → List Bytes → List Use × Option (List Bytes)
  | [], lines => ([], some lines)
  | (i, j) :: pairs, lines =>
    match compareSwap lines i j with
    | (use, none) => ([use], none)
    | (use, some lines) =>
      let (uses, lines) := sortLoop pairs lines
      (use :: uses, lines)

/-- The values of `i` and `j` in the nested loops. -/
def loopPairs (num_lines : Nat) : List (Nat × Nat) :=
  (List.range (num_lines - 1)).flatMap fun i =>
    (List.range' (i + 1) (num_lines - (i + 1))).map fun j => (i, j)

def sortStudentGrades (fs : Files) (buf : Bytes) : Ran :=
  let (_, rest) := strtok 32 buf
  let (arg1, _) := strtok 32 rest
  match fs.open_ .rdwr arg1 with
  | none =>
    failed [.open_ arg1] [] fs (text "- Failed to open file for sorting student grades\n")
  | some (content, fs) =>
    let lines := records [] content
    let uses := .open_ arg1 :: stores lines.length
    if lines.length > 100 then ⟨uses, [], fs⟩
    else
      match sortLoop (loopPairs lines.length) lines with
      | (compared, none) => ⟨uses ++ compared, [], fs⟩
      | (compared, some lines) =>
        completed (uses ++ compared)
          (.text (text "\nSorted Student List: \n") :: lines.map .line) fs
          (text "- Child process completed sorting student grades\n")

/-- The loop of `showAllStudents` over the lines, `count` of which have been seen. -/
def showLoop (listGrades listSome : Bool) (startEntry endEntry : Int) :
    Int → List Bytes → List Output
  | _, [] => []
  | count, line :: lines =>
    let (name, rest) := strtok 32 line
    let (surname, rest) := strtok 32 rest
    let (grade, _) := strtok 32 rest
    let row := Output.record name surname grade
    let all := if !listGrades && !listSome then [row] else []
    let count := count + 1
    if listGrades && count > 5 then all
    else
      all ++ (if listGrades then [row] else [])
        ++ (if listSome && (count ≥ startEntry && count ≤ endEntry) then [row] else [])
        ++ showLoop listGrades listSome startEntry endEntry count lines

def showAllStudents (fs : Files) (buf : Bytes) (listGrades listSome : Bool)
    (startEntry endEntry : Int) (filename : Option Bytes) : Ran :=
  let heading := Output.text (text (if listGrades then "\n*** Showing first 5 entries ***\n"
    else if listSome then "\n*** Showing the students in the given range ***\n"
    else "\n*** Showing all students ***\n"))
  let (_, rest) := strtok 32 buf
  let fileN := if listSome then filename else (strtok 32 rest).1
  match fileN with
  | none => ⟨[.strcpy fileN], [heading], fs⟩
  | some _ =>
    match fs.open_ .rdonly fileN with
    | none => failed [.strcpy fileN, .open_ fileN] [heading] fs
        (text "- Failed to open file for displaying student grades\n")
    | some (content, fs) =>
      completed [.strcpy fileN, .open_ fileN]
        (heading :: showLoop listGrades listSome startEntry endEntry 0 (records [] content)) fs
        (text "- Child process completed displaying student grades\n")

/-- The value of the digits at the front of a string. -/
def digits (value : Int) : Bytes → Int
  | [] => value
  | b :: bs => if 48 ≤ b ∧ b ≤ 57 then digits (10 * value + (b.toNat - 48)) bs else value

/-- `atoi` of a string, for values that fit. -/
def atoi (s : Bytes) : Int :=
  match s.dropWhile fun b => b = 32 ∨ 9 ≤ b ∧ b ≤ 13 with
  | 45 :: bs => - digits 0 bs
  | 43 :: bs => digits 0 bs
  | bs => digits 0 bs

/-- `listSomeStudents`, and whether `main` survives it: the numbers are read before the fork. -/
def listSomeStudents (fs : Files) (buf : Bytes) : Ran × Bool :=
  let (_, rest) := strtok 32 buf
  let (arg1, rest) := strtok 32 rest
  let (arg2, rest) := strtok 32 rest
  let (arg3, _) := strtok 32 rest
  match arg1, arg2 with
  | some n, some page =>
    let numofEntries := atoi n
    let pageNumber := atoi page
    let r := showAllStudents fs buf false true ((pageNumber - 1) * numofEntries + 1)
      (pageNumber * numofEntries) arg3
    ({ r with uses := .atoi arg1 :: .atoi arg2 :: r.uses }, true)
  | some _, none => (⟨[.atoi arg1, .atoi arg2], [], fs⟩, false)
  | none, _ => (⟨[.atoi arg1], [], fs⟩, false)

/-! ## §3. The main loop. -/

/-- The input that is still to be read, and the files. -/
structure State where
  input : Bytes
  files : Files

/-- One turn of the loop of `main`: what was used and printed, and the state after it, unless the
program has ended. -/
structure Round where
  uses : List Use
  stdout : List Output
  next : Option State

/-- At most `n` bytes of a line; the newline is read, too. -/
def readLine : Nat → Bytes → Bytes × Bytes
  | 0, bs => ([], bs)
  | _ + 1, [] => ([], [])
  | n + 1, b :: bs =>
    if b = 10 then ([], bs)
    else
      let (line, rest) := readLine n bs
      (b :: line, rest)

/-- The names in the order in which `main` compares the command with them. -/
def commands : List Bytes :=
  ["q", "gtuStudentGrades", "addStudentGrade", "searchStudent", "sortAll", "showAll", "listGrades",
    "listSome"].map text

/-- The comparisons of a command, up to the first that finds it. -/
def compared (command : Bytes) : List Bytes → List Use
  | [] => []
  | name :: names => .strcmp (some name) (some command)
      :: if name = command then [] else compared command names

/-- A command that needs an argument ends the program without one. -/
def withArgument (arg2 : Option Bytes) (round : Round) : Round :=
  if arg2 = none then ⟨[], [.text (text "Please provide argument!\n")], none⟩ else round

def dispatch (s : State) (buf command : Bytes) (arg2 : Option Bytes) : Round :=
  let ran (r : Ran) : Round := ⟨r.uses, r.stdout, some { s with files := r.files }⟩
  if command = text "gtuStudentGrades" then
    if arg2 ≠ none then ran (createFile s.files buf) else ⟨[], [.manual], some s⟩
  else if command = text "addStudentGrade" then
    withArgument arg2 (ran (addStudentGrade s.files buf))
  else if command = text "searchStudent" then
    withArgument arg2 (ran (searchStudentGrade s.files buf))
  else if command = text "sortAll" then withArgument arg2 (ran (sortStudentGrades s.files buf))
  else if command = text "showAll" then
    withArgument arg2 (ran (showAllStudents s.files buf false false 0 0 (some [])))
  else if command = text "listGrades" then
    withArgument arg2 (ran (showAllStudents s.files buf true false 0 0 (some [])))
  else if command = text "listSome" then
    withArgument arg2
      (let (r, alive) := listSomeStudents s.files buf
       if alive then ran r else ⟨r.uses, r.stdout, none⟩)
  else ⟨[], [], some s⟩

/-- One turn of the loop of `main`. -/
def main (s : State) : Round :=
  let (line, input) := readLine (MAX_LEN - 1) s.input
  let buf := cstr line
  let (command, rest) := strtok 32 buf
  match command with
  | none => ⟨[.strcmp (some (text "q")) none], [], none⟩
  | some command =>
    if command = text "q" then
      ⟨compared command commands, [.text (text "\n*** Exiting the program ***\n")], none⟩
    else
      let (arg2, _) := strtok 32 rest
      let round := dispatch ⟨input, s.files⟩ buf command arg2
      { round with uses := compared command commands ++ round.uses }

end SystemOS.Grades.Shell
