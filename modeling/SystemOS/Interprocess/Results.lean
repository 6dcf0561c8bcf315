/-
  SystemOS.Interprocess.Results — what the second child prints.

  The second FIFO is one stream with two writers, cut at fixed places by its reader.  When the sum
  comes last and no read is cut short, what has been read, what is in the FIFO and what is still to
  be written are together the array, the command and the sum, in that order, at every moment.

  Main results:
    * `flow_reachable`  — this, in every run whose steps are in order.
    * `result_printed`  — then the second child prints the product plus the sum.
    * `sum_overtakes`   — a run in which the sum comes first.
-/
import SystemOS.Interprocess.Fifos

namespace SystemOS.Interprocess.Results

open SystemOS.Lib.LittleEndian SystemOS.Lib.Transition SystemOS.Interprocess.Fifos

variable {j : Job} {s s' : State} {k : Nat}

/-! ## §1. What is still to be written. -/

/-- What the parent has yet to write into the first FIFO. -/
def rest1 (j : Job) : Parent → List UInt8
  | .open1 | .opening1 | .open2 | .opening2 => encode j.rand_arr
  | .writing1 rest => rest
  | .writing2 _ | .writingMessage _ | .close1 | .close2 | .looping => []
  | .killed at_ => rest1 j at_

/-- What the parent has yet to write into the second FIFO. -/
def rest2 (j : Job) : Parent → List UInt8
  | .open1 | .opening1 | .open2 | .opening2 | .writing1 _ => encode j.rand_arr ++ message
  | .writing2 rest => rest ++ message
  | .writingMessage rest => rest
  | .close1 | .close2 | .looping => []
  | .killed at_ => rest2 j at_

/-- The parent has written the array and the command. -/
def sent : Parent → Bool
  | .writingMessage rest => rest.isEmpty
  | .close1 | .close2 | .looping => true
  | _ => false

theorem rest2_sent {p : Parent} (h : sent p = true) : rest2 j p = [] := by
  cases p with
  | writingMessage rest => exact List.isEmpty_iff.mp h
  | close1 | close2 | looping => rfl
  | _ => cases h

/-- The sum, and the product, that the program is to compute. -/
def sum (j : Job) : BitVec 32 := sumOf (encode j.rand_arr)

def product (j : Job) : BitVec 32 := multOf (encode j.rand_arr)

/-- What the first child has yet to write. -/
def restSum (j : Job) : Child1 → List UInt8
  | .writing rest => rest
  | .close2 | .exited => []
  | .killed at_ => restSum j at_
  | _ => bytesOf (sum j)

/-- What the second child has read. -/
def consumed (j : Job) : Child2 → List UInt8
  | .open_ | .opening | .readingArray => []
  | .readingString => encode j.rand_arr
  | .readingSum _ => encode j.rand_arr ++ message
  | .close_ _ _ | .printed _ => encode j.rand_arr ++ message ++ bytesOf (sum j)

/-! ## §2. The parent. -/

theorem write_append {f f' : Fifo} {rest rest' : List UInt8} (h : f.write rest k = some (f', rest')) :
    f'.data ++ rest' = f.data ++ rest := by
  unfold Fifo.write at h
  split at h <;> cases h
  show f.data ++ rest.take k ++ rest.drop k = f.data ++ rest
  rw [List.append_assoc, List.take_append_drop]

/-- A write of the next bytes, unless nobody reads any more. -/
theorem write_cases {f : Fifo} {rest : List UInt8} {g : Fifo × List UInt8 → State} {dead : State}
    (h : (if f.reader then (f.write rest k).map g else some dead) = some s') :
    s' = dead ∨ ∃ f' rest', s' = g (f', rest') ∧ f'.data ++ rest' = f.data ++ rest := by
  by_cases hreader : f.reader = true
  · rw [if_pos hreader] at h
    obtain ⟨⟨f', rest'⟩, hw, hs⟩ := Option.map_eq_some_iff.mp h
    exact .inr ⟨f', rest', hs.symm, write_append hw⟩
  · rw [if_neg hreader] at h
    exact .inl (Option.some.inj h).symm

/-- A step of the parent moves bytes from what it has to write into the FIFOs, and nothing else. -/
structure Sends (j : Job) (s s' : State) : Prop where
  first : s'.fifo1.data ++ rest1 j s'.parent = s.fifo1.data ++ rest1 j s.parent
  second : s'.fifo2.data ++ rest2 j s'.parent = s.fifo2.data ++ rest2 j s.parent
  frame : s' = { s with fifo1 := s'.fifo1, fifo2 := s'.fifo2, parent := s'.parent }

/-- What is written from the place `p` of the parent. -/
theorem Sends.of_place {p : Parent} (hp : s.parent = p)
    (first : s'.fifo1.data ++ rest1 j s'.parent = s.fifo1.data ++ rest1 j p)
    (second : s'.fifo2.data ++ rest2 j s'.parent = s.fifo2.data ++ rest2 j p)
    (frame : s' = { s with fifo1 := s'.fifo1, fifo2 := s'.fifo2, parent := s'.parent }) :
    Sends j s s' := by
  subst hp
  exact ⟨first, second, frame⟩

theorem parent_sends (h : parent_fifo j s k = some s') : Sends j s s' := by
  unfold parent_fifo at h
  cases hp : s.parent with
  | open1 => rw [hp] at h; cases h; exact .of_place hp rfl rfl rfl
  | opening1 =>
    rw [hp] at h
    dsimp only at h
    split at h <;> cases h
    exact .of_place hp rfl rfl rfl
  | open2 => rw [hp] at h; cases h; exact .of_place hp rfl rfl rfl
  | opening2 =>
    rw [hp] at h
    dsimp only at h
    split at h <;> cases h
    exact .of_place hp rfl rfl rfl
  | writing1 rest =>
    cases rest with
    | nil => rw [hp] at h; cases h; exact .of_place hp rfl rfl rfl
    | cons b rest =>
      rw [hp] at h
      -- SIGPIPE, or the next bytes of the array.
      obtain rfl | ⟨f, rest', rfl, hw⟩ := write_cases h
      · exact .of_place hp rfl rfl rfl
      · exact .of_place hp hw rfl rfl
  | writing2 rest =>
    cases rest with
    | nil => rw [hp] at h; cases h; exact .of_place hp rfl rfl rfl
    | cons b rest =>
      rw [hp] at h
      obtain rfl | ⟨f, rest', rfl, hw⟩ := write_cases h
      · exact .of_place hp rfl rfl rfl
      -- The command is still behind the array.
      · refine .of_place hp rfl ?_ rfl
        show f.data ++ (rest' ++ message) = s.fifo2.data ++ (b :: rest ++ message)
        rw [← List.append_assoc, hw]
        exact List.append_assoc ..
  | writingMessage rest =>
    cases rest with
    | nil => rw [hp] at h; cases h; exact .of_place hp rfl rfl rfl
    | cons b rest =>
      rw [hp] at h
      obtain rfl | ⟨f, rest', rfl, hw⟩ := write_cases h
      · exact .of_place hp rfl rfl rfl
      · exact .of_place hp rfl hw rfl
  | close1 => rw [hp] at h; cases h; exact .of_place hp rfl rfl rfl
  | close2 => rw [hp] at h; cases h; exact .of_place hp rfl rfl rfl
  | looping => rw [hp] at h; cases h
  | killed at_ => rw [hp] at h; cases h

/-! ## §3. The invariant. -/

/-- The first child has not yet read. -/
def unread : Child1 → Bool
  | .open1 | .opening1 | .reading => true
  | _ => false

/-- The sum that the first child carries. -/
def carried : Child1 → Option (BitVec 32)
  | .close1 v | .open2 v | .opening2 v => some v
  | _ => none

/-- The buffers have their sizes, as long as they have not been filled. -/
structure Sized (j : Job) (s : State) : Prop where
  data : s.received_data.length = j.bytes
  array : s.received_array.length = j.bytes
  string : s.received_string.length = message.length
  sum : s.received_sum.length = 4

/-- What the second child has made of what it has read. -/
def Understood (j : Job) (s : State) : Prop :=
  match s.child2 with
  | .open_ | .opening | .readingArray => True
  | .readingString => s.received_array = encode j.rand_arr
  | .readingSum mult => mult = product j
  | .close_ mult received_sum => mult = product j ∧ received_sum = sum j
  | .printed result => result = product j + sum j

structure Flow (j : Job) (s : State) : Prop where
  first : unread s.child1 = true → s.fifo1.data ++ rest1 j s.parent = encode j.rand_arr
  second : consumed j s.child2 ++ s.fifo2.data ++ rest2 j s.parent ++ restSum j s.child1
    = encode j.rand_arr ++ message ++ bytesOf (sum j)
  carried : ∀ v, carried s.child1 = some v → v = sum j
  understood : Understood j s
  sized : Sized j s

theorem flow_parent (hf : Flow j s) (h : parent_fifo j s k = some s') : Flow j s' := by
  obtain ⟨hfirst, hsecond, hframe⟩ := parent_sends h
  have hchild1 : s'.child1 = s.child1 := by rw [hframe]
  have hchild2 : s'.child2 = s.child2 := by rw [hframe]
  refine ⟨?_, ?_, ?_, ?_, ?_⟩
  · rw [hchild1, hfirst]
    exact hf.first
  · rw [hchild1, hchild2, List.append_assoc (consumed j s.child2), hsecond, ← List.append_assoc]
    exact hf.second
  · rw [hchild1]
    exact hf.carried
  · rw [hframe]
    exact hf.understood
  · rw [hframe]
    exact ⟨hf.sized.data, hf.sized.array, hf.sized.string, hf.sized.sum⟩

/-! ## §4. Steps that are in order. -/

/-- A read returns all it asks for, and the sum is written after the array and the command. -/
def inOrder (j : Job) (s : State) : Event → Bool
  | .parent _ => true
  | .child1 k =>
    match s.child1 with
    | .writing _ => sent s.parent
    | .reading => k == j.bytes
    | _ => true
  | .child2 k =>
    match s.child2 with
    | .readingArray => k == j.bytes
    | .readingString => k == message.length
    | .readingSum _ => k == 4
    | _ => true

theorem read_some {f f' : Fifo} {count : Nat} {bytes : List UInt8}
    (h : f.read count k = some (bytes, f')) :
    bytes.length = k ∧ bytes ++ f'.data = f.data := by
  unfold Fifo.read at h
  split at h <;> cases h
  rename_i hk
  exact ⟨by rw [List.length_take]; omega, List.take_append_drop k f.data⟩

/-- A read that fills its buffer. -/
theorem filled_all {buffer bytes : List UInt8} (h : bytes.length = buffer.length) :
    filled buffer bytes = bytes := by
  unfold filled
  rw [h, List.drop_length, List.append_nil]

/-- The first part of a stream, by its length. -/
theorem first_part {a b c d : List UInt8} (h : a ++ b = c ++ d) (hlen : a.length = c.length) :
    a = c := (List.append_inj h hlen).1

/-- The first child moves without touching what it has to write. -/
theorem Flow.child1 (hf : Flow j s) (hframe : s' = { s with
      fifo1 := s'.fifo1, fifo2 := s'.fifo2, child1 := s'.child1 })
    (hdata1 : s'.fifo1.data = s.fifo1.data) (hdata2 : s'.fifo2.data = s.fifo2.data)
    (hunread : unread s'.child1 = true → unread s.child1 = true)
    (hrest : restSum j s'.child1 = restSum j s.child1)
    (hcarried : ∀ v, Results.carried s'.child1 = some v → v = sum j) : Flow j s' := by
  have hparent : s'.parent = s.parent := by rw [hframe]
  have hchild2 : s'.child2 = s.child2 := by rw [hframe]
  refine ⟨fun h => ?_, ?_, hcarried, ?_, ?_⟩
  · rw [hdata1, hparent]
    exact hf.first (hunread h)
  · rw [hdata2, hparent, hchild2, hrest]
    exact hf.second
  · rw [hframe]
    exact hf.understood
  · rw [hframe]
    exact ⟨hf.sized.data, hf.sized.array, hf.sized.string, hf.sized.sum⟩

/-- The first child reads the whole array. -/
theorem flow_reading (hf : Flow j s) (hc : s.child1 = .reading) (hk : k = j.bytes)
    (h : child1_fifo j s k = some s') : Flow j s' := by
  unfold child1_fifo at h
  rw [hc] at h
  obtain ⟨⟨bytes, f⟩, hread, hs⟩ := Option.map_eq_some_iff.mp h
  cases hs
  obtain ⟨hlen, hdata⟩ := read_some hread
  -- What is in the FIFO and what the parent still has to write are the array together, and the
  -- read returns a prefix of its whole length.
  have hfirst := hf.first (by rw [hc]; rfl)
  rw [← hdata, List.append_assoc, ← List.append_nil (encode j.rand_arr)] at hfirst
  have hbytes : bytes = encode j.rand_arr :=
    first_part hfirst (by rw [hlen, hk, encode_length]; rfl)
  have hfilled : filled s.received_data bytes = encode j.rand_arr := by
    rw [filled_all (by rw [hlen, hk, hf.sized.data]), hbytes]
  refine ⟨nofun, ?_, ?_, hf.understood, ?_⟩
  · have hsecond := hf.second
    rw [hc] at hsecond
    exact hsecond
  · intro v hv
    cases hv
    exact congrArg sumOf hfilled
  · refine ⟨?_, hf.sized.array, hf.sized.string, hf.sized.sum⟩
    show (filled s.received_data bytes).length = j.bytes
    rw [hfilled, encode_length]
    rfl

/-- The first child writes after everything of the parent's. -/
theorem flow_writing (hf : Flow j s) {b : UInt8} {rest : List UInt8}
    (hc : s.child1 = .writing (b :: rest)) (hsent : sent s.parent = true)
    (h : child1_fifo j s k = some s') : Flow j s' := by
  unfold child1_fifo at h
  rw [hc] at h
  obtain rfl | ⟨f, rest', rfl, hw⟩ := write_cases h
  · exact hf.child1 rfl rfl rfl nofun (by rw [hc]; rfl) fun _ hv => by cases hv
  -- The bytes of the sum go behind everything, as the parent has nothing left to write.
  · have hnone := rest2_sent (j := j) hsent
    have hsecond := hf.second
    rw [hc, hnone, List.append_nil, List.append_assoc] at hsecond
    refine ⟨nofun, ?_, fun _ hv => (by cases hv), hf.understood,
      ⟨hf.sized.data, hf.sized.array, hf.sized.string, hf.sized.sum⟩⟩
    show consumed j s.child2 ++ f.data ++ rest2 j s.parent ++ rest' = _
    rw [hnone, List.append_nil, List.append_assoc, hw]
    exact hsecond

theorem flow_child1 (hf : Flow j s) (hin : inOrder j s (.child1 k) = true)
    (h : child1_fifo j s k = some s') : Flow j s' := by
  have hcarried := hf.carried
  unfold inOrder at hin
  cases hc : s.child1 with
  | reading =>
    rw [hc] at hin
    exact flow_reading hf hc (beq_iff_eq.mp hin) h
  | open1 =>
    unfold child1_fifo at h
    rw [hc] at h
    cases h
    exact hf.child1 rfl rfl rfl (fun _ => by rw [hc]; rfl) (by rw [hc]; rfl) fun _ hv => by cases hv
  | opening1 =>
    unfold child1_fifo at h
    rw [hc] at h
    dsimp only at h
    split at h <;> cases h
    exact hf.child1 rfl rfl rfl (fun _ => by rw [hc]; rfl) (by rw [hc]; rfl) fun _ hv => by cases hv
  | close1 v =>
    unfold child1_fifo at h
    rw [hc] at h hcarried
    cases h
    exact hf.child1 rfl rfl rfl nofun (by rw [hc]; rfl) hcarried
  | open2 v =>
    unfold child1_fifo at h
    rw [hc] at h hcarried
    cases h
    exact hf.child1 rfl rfl rfl nofun (by rw [hc]; rfl) hcarried
  | opening2 v =>
    unfold child1_fifo at h
    rw [hc] at h hcarried
    dsimp only at h
    split at h <;> cases h
    -- The sum that was carried becomes what is left to write.
    refine hf.child1 rfl rfl rfl nofun ?_ fun _ hv => by cases hv
    rw [hc]
    exact congrArg bytesOf (hcarried v rfl)
  | writing rest =>
    cases rest with
    | nil =>
      unfold child1_fifo at h
      rw [hc] at h
      cases h
      exact hf.child1 rfl rfl rfl nofun (by rw [hc]; rfl) fun _ hv => by cases hv
    | cons b rest =>
      -- nothing of the parent's comes after this
      rw [hc] at hin
      exact flow_writing hf hc hin h
  | close2 =>
    unfold child1_fifo at h
    rw [hc] at h
    cases h
    exact hf.child1 rfl rfl rfl nofun (by rw [hc]; rfl) fun _ hv => by cases hv
  | exited => unfold child1_fifo at h; rw [hc] at h; cases h
  | killed at_ => unfold child1_fifo at h; rw [hc] at h; cases h

/-- What a read of the second child returns, when it returns all it asks for. -/
theorem read_second {f : Fifo} {count : Nat} {bytes : List UInt8} (hf : Flow j s)
    (hread : s.fifo2.read count k = some (bytes, f)) (before part after : List UInt8)
    (hk : k = part.length)
    (hbefore : consumed j s.child2 = before)
    (hstream : encode j.rand_arr ++ message ++ bytesOf (sum j) = before ++ (part ++ after)) :
    bytes = part ∧ before ++ part ++ f.data ++ rest2 j s.parent ++ restSum j s.child1
      = encode j.rand_arr ++ message ++ bytesOf (sum j) := by
  obtain ⟨hlen, hdata⟩ := read_some hread
  have hsecond := hf.second
  rw [hbefore, ← hdata] at hsecond
  -- Both sides are the whole stream, so that the part read is a prefix of it by its length.
  have hall : before ++ (bytes ++ (f.data ++ (rest2 j s.parent ++ restSum j s.child1)))
      = before ++ (part ++ after) := by
    rw [← hstream, ← hsecond]
    simp only [List.append_assoc]
  have hbytes := first_part (List.append_cancel_left hall) (hlen.trans hk)
  refine ⟨hbytes, ?_⟩
  rw [← hsecond, ← hbytes]
  simp only [List.append_assoc]

theorem decode_bytesOf (x : BitVec 32) : decode (bytesOf x) = [x] := by
  rw [← decode_encode [x], encode_cons]
  exact congrArg decode (List.append_nil _).symm

/-- The second child moves without reading. -/
theorem Flow.child2 (hf : Flow j s) {f : Fifo} {c : Child2} (hdata : f.data = s.fifo2.data)
    (hconsumed : consumed j c = consumed j s.child2)
    (hunderstood : Understood j { s with fifo2 := f, child2 := c }) :
    Flow j { s with fifo2 := f, child2 := c } := by
  refine ⟨hf.first, ?_, hf.carried, hunderstood,
    ⟨hf.sized.data, hf.sized.array, hf.sized.string, hf.sized.sum⟩⟩
  show consumed j c ++ f.data ++ _ ++ _ = _
  rw [hdata, hconsumed]
  exact hf.second

/-- The second child reads the whole array. -/
theorem flow_readingArray (hf : Flow j s) (hc : s.child2 = .readingArray) (harray : k = j.bytes)
    (h : child2_fifo j s k = some s') : Flow j s' := by
  unfold child2_fifo at h
  rw [hc] at h
  obtain ⟨⟨bytes, f⟩, hread, hs⟩ := Option.map_eq_some_iff.mp h
  cases hs
  have hk : k = (encode j.rand_arr).length := by rw [harray, encode_length, Job.bytes]
  obtain ⟨hbytes, hsecond⟩ := read_second hf hread [] (encode j.rand_arr)
    (message ++ bytesOf (sum j)) hk (congrArg (consumed j) hc) (List.append_assoc ..)
  have hfilled : filled s.received_array bytes = encode j.rand_arr := by
    rw [filled_all (by rw [hbytes, ← hk, harray, hf.sized.array]), hbytes]
  refine ⟨hf.first, hsecond, hf.carried, hfilled, hf.sized.data, ?_, hf.sized.string,
    hf.sized.sum⟩
  show (filled s.received_array bytes).length = j.bytes
  rw [hfilled, ← hk, harray]

/-- It reads the whole command, and multiplies. -/
theorem flow_readingString (hf : Flow j s) (hc : s.child2 = .readingString)
    (hk : k = message.length) (h : child2_fifo j s k = some s') : Flow j s' := by
  have hunderstood := hf.understood
  unfold Understood at hunderstood
  unfold child2_fifo at h
  rw [hc] at h hunderstood
  obtain ⟨⟨bytes, f⟩, hread, hs⟩ := Option.map_eq_some_iff.mp h
  cases hs
  obtain ⟨hbytes, hsecond⟩ := read_second hf hread (encode j.rand_arr) message
    (bytesOf (sum j)) hk (congrArg (consumed j) hc) (List.append_assoc ..)
  have hfilled : filled s.received_string bytes = message := by
    rw [filled_all (by rw [hbytes, hf.sized.string]), hbytes]
  refine ⟨hf.first, hsecond, hf.carried, ?_, hf.sized.data, hf.sized.array, ?_, hf.sized.sum⟩
  · show (if filled s.received_string bytes = message then multOf s.received_array else 1) = _
    -- `strcmp` finds the command, so the product is computed.
    rw [if_pos hfilled, hunderstood]
    rfl
  · show (filled s.received_string bytes).length = _
    rw [hfilled]

/-- It reads the whole sum. -/
theorem flow_readingSum (hf : Flow j s) {mult : BitVec 32} (hc : s.child2 = .readingSum mult)
    (hk : k = 4) (h : child2_fifo j s k = some s') : Flow j s' := by
  have hunderstood := hf.understood
  unfold Understood at hunderstood
  unfold child2_fifo at h
  rw [hc] at h hunderstood
  obtain ⟨⟨bytes, f⟩, hread, hs⟩ := Option.map_eq_some_iff.mp h
  cases hs
  obtain ⟨hbytes, hsecond⟩ := read_second hf hread (encode j.rand_arr ++ message)
    (bytesOf (sum j)) [] hk (congrArg (consumed j) hc) (by rw [List.append_nil])
  have hfilled : filled s.received_sum bytes = bytesOf (sum j) := by
    rw [filled_all (by rw [hbytes, hf.sized.sum]; rfl), hbytes]
  refine ⟨hf.first, hsecond, hf.carried, ⟨hunderstood, ?_⟩, hf.sized.data, hf.sized.array,
    hf.sized.string, ?_⟩
  · rw [hfilled, decode_bytesOf]
    rfl
  · show (filled s.received_sum bytes).length = 4
    rw [hfilled]
    rfl

theorem flow_child2 (hf : Flow j s) (hin : inOrder j s (.child2 k) = true)
    (h : child2_fifo j s k = some s') : Flow j s' := by
  unfold inOrder at hin
  cases hc : s.child2 with
  | readingArray =>
    rw [hc] at hin
    exact flow_readingArray hf hc (beq_iff_eq.mp hin) h
  | readingString =>
    rw [hc] at hin
    exact flow_readingString hf hc (beq_iff_eq.mp hin) h
  | readingSum mult =>
    rw [hc] at hin
    exact flow_readingSum hf hc (beq_iff_eq.mp hin) h
  | open_ =>
    unfold child2_fifo at h
    rw [hc] at h
    cases h
    exact hf.child2 rfl (by rw [hc]; rfl) trivial
  | opening =>
    unfold child2_fifo at h
    rw [hc] at h
    dsimp only at h
    split at h <;> cases h
    exact hf.child2 rfl (by rw [hc]; rfl) trivial
  | close_ mult received_sum =>
    have hunderstood := hf.understood
    unfold Understood at hunderstood
    unfold child2_fifo at h
    rw [hc] at h hunderstood
    cases h
    obtain ⟨hmult, hsum⟩ := hunderstood
    exact hf.child2 rfl (by rw [hc]; rfl) (congrArg₂ (· + ·) hmult hsum)
  | printed result =>
    unfold child2_fifo at h
    rw [hc] at h
    cases h

/-! ## §5. Every run in order. -/

theorem flow_started (h : Started j s) : Flow j s := by
  refine ⟨fun _ => ?_, ?_, ?_, ?_, h.received_data, h.received_array, h.received_string,
    h.received_sum⟩
  · rw [h.fifo1, h.parent]
    rfl
  · rw [h.fifo2, h.parent, h.child1, h.child2]
    rfl
  · rw [h.child1]
    exact fun _ hv => by cases hv
  · unfold Understood
    rw [h.child2]
    trivial

/-- The runs whose steps are all in order. -/
def orderly (j : Job) : System State Event := (system j).restrict fun s e => inOrder j s e = true

theorem flow_reachable (h : (orderly j).Reachable s) : Flow j s := by
  refine h.invariant ?_ ?_
  · exact fun s hs => flow_started hs
  · intro s e s' hf hstep
    obtain ⟨hin, hrun⟩ := hstep
    cases e with
    | parent k => exact flow_parent hf hrun
    | child1 k => exact flow_child1 hf hin hrun
    | child2 k => exact flow_child2 hf hin hrun

/-! ## §6. The numbers. -/

theorem foldl_add (xs : List (BitVec 32)) (a : BitVec 32) :
    xs.foldl (· + ·) a = a + BitVec.ofInt 32 (xs.map BitVec.toInt).sum := by
  induction xs generalizing a with
  | nil => exact (BitVec.add_zero a).symm
  | cons x xs ih =>
    rw [List.foldl_cons, ih, List.map_cons, List.sum_cons, BitVec.ofInt_add, BitVec.ofInt_toInt,
      BitVec.add_assoc]

theorem foldl_mul (xs : List (BitVec 32)) (a : BitVec 32) :
    xs.foldl (· * ·) a = a * BitVec.ofInt 32 (xs.map BitVec.toInt).prod := by
  induction xs generalizing a with
  | nil => exact (BitVec.mul_one a).symm
  | cons x xs ih =>
    rw [List.foldl_cons, ih, List.map_cons, List.prod_cons, BitVec.ofInt_mul, BitVec.ofInt_toInt,
      BitVec.mul_assoc]

theorem sum_eq (j : Job) : sum j = BitVec.ofInt 32 (j.rand_arr.map BitVec.toInt).sum := by
  unfold sum sumOf
  rw [decode_encode, foldl_add]
  exact BitVec.zero_add _

theorem product_eq (j : Job) : product j = BitVec.ofInt 32 (j.rand_arr.map BitVec.toInt).prod := by
  unfold product multOf
  rw [decode_encode, foldl_mul]
  exact BitVec.one_mul _

/-- **The number printed**, for every array, in every run whose reads are whole and whose sum comes
last: the product plus the sum, modulo `2 ^ 32`. -/
theorem result_printed (h : (orderly j).Reachable s) (result : BitVec 32)
    (hp : s.child2 = .printed result) :
    result = BitVec.ofInt 32
      ((j.rand_arr.map BitVec.toInt).prod + (j.rand_arr.map BitVec.toInt).sum) := by
  have hunderstood := (flow_reachable h).understood
  unfold Understood at hunderstood
  rw [hp] at hunderstood
  rw [BitVec.ofInt_add, ← product_eq, ← sum_eq]
  exact hunderstood

/-- The last state of a run whose steps all meet `ok`, if it can be taken. -/
def runAll (j : Job) (ok : State → Event → Bool) (s : State) : List Event → Option State
  | [] => some s
  | e :: es => if ok s e then (step j s e).bind (runAll j ok · es) else none

theorem runAll_reachable {ok : State → Event → Bool} {es : List Event}
    (hrun : runAll j ok s es = some s')
    (hs : ((system j).restrict fun s e => ok s e = true).Reachable s) :
    ((system j).restrict fun s e => ok s e = true).Reachable s' := by
  induction es generalizing s with
  | nil => cases hrun; exact hs
  | cons e es ih =>
    rw [runAll] at hrun
    split at hrun
    · rename_i hok
      obtain ⟨t, hstep, hrun⟩ := Option.bind_eq_some_iff.mp hrun
      exact ih hrun (hs.next ⟨hok, hstep⟩)
    · cases hrun

/-- One element, and buffers that are zero before they are filled. -/
def oneFive : Job := ⟨[5], by decide⟩

def fresh : State :=
  ⟨.created, .created, .open1, .open1, .open_, List.replicate 4 0, List.replicate 4 0,
    List.replicate 9 0, List.replicate 4 0⟩

theorem fresh_started : Started oneFive fresh := ⟨rfl, rfl, rfl, rfl, rfl, rfl, rfl, rfl, rfl⟩

/-- All three open their FIFOs; the parent writes the array into the first one, and the first child
reads it and gets ready to write the sum. -/
def opened : List Event :=
  [.child1 0, .child2 0, .parent 0, .parent 0, .parent 0, .parent 0, .child1 0, .child2 0,
    .parent 4, .child1 4, .child1 0, .child1 0, .child1 0]

/-- The parent writes the array and the command into the second FIFO. -/
def sends : List Event := [.parent 0, .parent 4, .parent 0, .parent 9, .parent 0]

/-- The second child reads four bytes, nine and four, and prints. -/
def prints : List Event := [.child2 4, .child2 9, .child2 4, .child2 0]

theorem result_printed_oneFive : ∃ s : State, s.child2 = .printed 10
    ∧ (10 : BitVec 32) = BitVec.ofInt 32 ((oneFive.rand_arr.map BitVec.toInt).prod
      + (oneFive.rand_arr.map BitVec.toInt).sum) := by
  have hrun : (runAll oneFive (inOrder oneFive) fresh (opened ++ sends ++ [.child1 4] ++ prints)).map
      (·.child2) = some (.printed 10) := by
    decide +kernel
  obtain ⟨s, hs, hp⟩ := Option.map_eq_some_iff.mp hrun
  exact ⟨s, hp, result_printed (runAll_reachable hs (.start fresh_started)) 10 hp⟩

/-- The first child writes the sum before the parent gets to the second FIFO: the sum is read as the
array, and the end of the command as the sum. -/
theorem sum_overtakes : ∃ s, (system oneFive).Reachable s ∧ s.child2 = .printed 7957617
    ∧ (7957617 : BitVec 32) ≠ BitVec.ofInt 32 ((oneFive.rand_arr.map BitVec.toInt).prod
      + (oneFive.rand_arr.map BitVec.toInt).sum) := by
  have hrun : (runAll oneFive (fun _ _ => true) fresh (opened ++ [.child1 4] ++ sends ++ prints)).map
      (·.child2) = some (.printed 7957617) := by
    decide +kernel
  obtain ⟨s, hs, hp⟩ := Option.map_eq_some_iff.mp hrun
  exact ⟨s, (runAll_reachable hs (.start fresh_started)).of_restrict, hp, by decide⟩

end SystemOS.Interprocess.Results
