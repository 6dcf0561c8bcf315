/-
  SystemOS.Interprocess.Fifos — the sum and the product of an array, by two child processes.

  The parent writes the array to both FIFOs and a command to the second; the first child adds up
  what it reads and writes the sum to the second FIFO, too; the second child reads the array, the
  command and the sum from there and prints.

  A process makes one system call, or one piece of one, at a step: a write goes through in pieces, a
  read returns what is there, at most what was asked for, and a write without a reader ends the
  process.  What a buffer holds before it is filled is arbitrary.  The calls that create files and
  processes succeed; the sleeps guarantee nothing and are left out.
-/
import SystemOS.Lib.LittleEndian
import SystemOS.Lib.Transition

namespace SystemOS.Interprocess.Fifos

open SystemOS.Lib.LittleEndian SystemOS.Lib.Transition

/-! ## §1. A FIFO. -/

/-- The bytes in the FIFO, and who has it open; `reader` and `writers` count from the call of
`open`, which returns once there is somebody at the other end. -/
structure Fifo where
  data : List UInt8
  reader : Bool
  writers : Nat
  hadWriter : Bool

namespace Fifo

def created : Fifo := ⟨[], false, 0, false⟩

def openRead (f : Fifo) : Fifo := { f with reader := true }

def closeRead (f : Fifo) : Fifo := { f with reader := false }

def openWrite (f : Fifo) : Fifo := { f with writers := f.writers + 1, hadWriter := true }

def closeWrite (f : Fifo) : Fifo := { f with writers := f.writers - 1 }

/-- `read` of at most `count` bytes that returns `k`: 0 only at the end of the file. -/
def read (f : Fifo) (count k : Nat) : Option (List UInt8 × Fifo) :=
  if k ≤ count ∧ k ≤ f.data.length ∧ (0 < k ∨ f.data = [] ∧ f.writers = 0) then
    some (f.data.take k, { f with data := f.data.drop k })
  else none

/-- The next `k` bytes of a `write`, with what is left of it. -/
def write (f : Fifo) (rest : List UInt8) (k : Nat) : Option (Fifo × List UInt8) :=
  if 0 < k ∧ k ≤ rest.length then some ({ f with data := f.data ++ rest.take k }, rest.drop k)
  else none

end Fifo

/-- The array of `main`, which refuses an empty one. -/
structure Job where
  rand_arr : List (BitVec 32)
  size_pos : 0 < rand_arr.length

/-- `array_size * sizeof(int)`. -/
def Job.bytes (j : Job) : Nat := 4 * j.rand_arr.length

/-- `"multiply"` with its terminator. -/
def message : List UInt8 := [109, 117, 108, 116, 105, 112, 108, 121, 0]

/-- A buffer after a `read` that returned these bytes. -/
def filled (buffer bytes : List UInt8) : List UInt8 := bytes ++ buffer.drop bytes.length

/-! ## §2. The processes. -/

/-- Where the parent is; `opening1` and `opening2` are inside the calls of `open`. -/
inductive Parent
  | open1
  | opening1
  | open2
  | opening2
  | writing1 (rest : List UInt8)
  | writing2 (rest : List UInt8)
  | writingMessage (rest : List UInt8)
  | close1
  | close2
  | looping
  | killed (at_ : Parent)

inductive Child1
  | open1
  | opening1
  | reading
  | close1 (sum : BitVec 32)
  | open2 (sum : BitVec 32)
  | opening2 (sum : BitVec 32)
  | writing (rest : List UInt8)
  | close2
  | exited
  | killed (at_ : Child1)

inductive Child2
  | open_
  | opening
  | readingArray
  | readingString
  | readingSum (mult : BitVec 32)
  | close_ (mult received_sum : BitVec 32)
  | printed (result : BitVec 32)
  deriving DecidableEq

structure State where
  fifo1 : Fifo
  fifo2 : Fifo
  parent : Parent
  child1 : Child1
  child2 : Child2
  received_data : List UInt8
  received_array : List UInt8
  received_string : List UInt8
  received_sum : List UInt8

/-- `parent_fifo` after the forks. -/
def parent_fifo (j : Job) (s : State) (k : Nat) : Option State :=
  match s.parent with
  | .open1 => some { s with fifo1 := s.fifo1.openWrite, parent := .opening1 }
  | .opening1 => if s.fifo1.reader then some { s with parent := .open2 } else none
  | .open2 => some { s with fifo2 := s.fifo2.openWrite, parent := .opening2 }
  | .opening2 =>
    if s.fifo2.reader then some { s with parent := .writing1 (encode j.rand_arr) } else none
  | .writing1 [] => some { s with parent := .writing2 (encode j.rand_arr) }
  | .writing1 rest =>
    if s.fifo1.reader then
      (s.fifo1.write rest k).map fun w => { s with fifo1 := w.1, parent := .writing1 w.2 }
    else some { s with fifo1 := s.fifo1.closeWrite, fifo2 := s.fifo2.closeWrite,
                       parent := .killed (.writing1 rest) }
  | .writing2 [] => some { s with parent := .writingMessage message }
  | .writing2 rest =>
    if s.fifo2.reader then
      (s.fifo2.write rest k).map fun w => { s with fifo2 := w.1, parent := .writing2 w.2 }
    else some { s with fifo1 := s.fifo1.closeWrite, fifo2 := s.fifo2.closeWrite,
                       parent := .killed (.writing2 rest) }
  | .writingMessage [] => some { s with parent := .close1 }
  | .writingMessage rest =>
    if s.fifo2.reader then
      (s.fifo2.write rest k).map fun w => { s with fifo2 := w.1, parent := .writingMessage w.2 }
    else some { s with fifo1 := s.fifo1.closeWrite, fifo2 := s.fifo2.closeWrite,
                       parent := .killed (.writingMessage rest) }
  | .close1 => some { s with fifo1 := s.fifo1.closeWrite, parent := .close2 }
  | .close2 => some { s with fifo2 := s.fifo2.closeWrite, parent := .looping }
  | .looping => none
  | .killed _ => none

/-- The loop over `received_data`. -/
def sumOf (received_data : List UInt8) : BitVec 32 := (decode received_data).foldl (· + ·) 0

/-- The loop over `received_array`. -/
def multOf (received_array : List UInt8) : BitVec 32 := (decode received_array).foldl (· * ·) 1

def child1_fifo (j : Job) (s : State) (k : Nat) : Option State :=
  match s.child1 with
  | .open1 => some { s with fifo1 := s.fifo1.openRead, child1 := .opening1 }
  | .opening1 => if s.fifo1.hadWriter then some { s with child1 := .reading } else none
  | .reading => (s.fifo1.read j.bytes k).map fun r =>
    { s with fifo1 := r.2, received_data := filled s.received_data r.1,
             child1 := .close1 (sumOf (filled s.received_data r.1)) }
  | .close1 sum => some { s with fifo1 := s.fifo1.closeRead, child1 := .open2 sum }
  | .open2 sum => some { s with fifo2 := s.fifo2.openWrite, child1 := .opening2 sum }
  | .opening2 sum =>
    if s.fifo2.reader then some { s with child1 := .writing (bytesOf sum) } else none
  | .writing [] => some { s with child1 := .close2 }
  | .writing rest =>
    if s.fifo2.reader then
      (s.fifo2.write rest k).map fun w => { s with fifo2 := w.1, child1 := .writing w.2 }
    else some { s with fifo2 := s.fifo2.closeWrite, child1 := .killed (.writing rest) }
  | .close2 => some { s with fifo2 := s.fifo2.closeWrite, child1 := .exited }
  | .exited => none
  | .killed _ => none

/-- `strcmp(received_string, "multiply") == 0` decides whether to multiply. -/
def child2_fifo (j : Job) (s : State) (k : Nat) : Option State :=
  match s.child2 with
  | .open_ => some { s with fifo2 := s.fifo2.openRead, child2 := .opening }
  | .opening => if s.fifo2.hadWriter then some { s with child2 := .readingArray } else none
  | .readingArray => (s.fifo2.read j.bytes k).map fun r =>
    { s with fifo2 := r.2, received_array := filled s.received_array r.1,
             child2 := .readingString }
  | .readingString => (s.fifo2.read message.length k).map fun r =>
    let received_string := filled s.received_string r.1
    { s with fifo2 := r.2, received_string := received_string,
             child2 := .readingSum
               (if received_string = message then multOf s.received_array else 1) }
  | .readingSum mult => (s.fifo2.read 4 k).map fun r =>
    let received_sum := filled s.received_sum r.1
    { s with fifo2 := r.2, received_sum := received_sum,
             child2 := .close_ mult ((decode received_sum).headD 0) }
  | .close_ mult received_sum =>
    some { s with fifo2 := s.fifo2.closeRead, child2 := .printed (mult + received_sum) }
  | .printed _ => none

/-! ## §3. Interleavings. -/

/-- A step of one of the processes; `k` is the number of bytes that its call transfers. -/
inductive Event
  | parent (k : Nat)
  | child1 (k : Nat)
  | child2 (k : Nat)

def step (j : Job) (s : State) : Event → Option State
  | .parent k => parent_fifo j s k
  | .child1 k => child1_fifo j s k
  | .child2 k => child2_fifo j s k

/-- The processes after the forks; the buffers are on the stacks of the children. -/
structure Started (j : Job) (s : State) : Prop where
  fifo1 : s.fifo1 = .created
  fifo2 : s.fifo2 = .created
  parent : s.parent = .open1
  child1 : s.child1 = .open1
  child2 : s.child2 = .open_
  received_data : s.received_data.length = j.bytes
  received_array : s.received_array.length = j.bytes
  received_string : s.received_string.length = message.length
  received_sum : s.received_sum.length = 4

def system (j : Job) : System State Event where
  init := Started j
  step s e s' := step j s e = some s'

end SystemOS.Interprocess.Fifos
