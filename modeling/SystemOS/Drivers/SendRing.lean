/-
  SystemOS.Drivers.SendRing — what stands in the buffers of the send ring.

  A row of `sendBuffers` has 8 bytes, and the constructor rounds the address of a row up to a
  multiple of 16, so that the eight buffers start within 71 bytes and a frame reaches into the
  buffers of the descriptors after its own.

  Main results:
    * `Queued.send`       — after each `Send` the buffers are the frames sent so far, laid over one
      another in the order of the calls.
    * `intact_iff_agree`  — the frames of the last eight calls stand in their buffers exactly when
      any two of them have the same bytes wherever their buffers overlap.
    * `shared_buffer`     — wherever the object lies, two descriptors in a row have one buffer.
-/
import SystemOS.Drivers.Am79c973
import SystemOS.Lib.Overlay
import SystemOS.Lib.Transition
import Mathlib.Data.List.Induction

namespace SystemOS.Drivers.SendRing

open SystemOS.Lib.ByteMemory SystemOS.Lib.Overlay SystemOS.Lib.Transition
open SystemOS.Drivers.Am79c973

/-! ## §1. Runs of `Send`. -/

/-- The memory, and the frames passed to `Send` so far, oldest first. -/
structure State where
  mem : Mem
  frames : List (List UInt8)

/-- One call: the memory at the time of the call and the arguments. -/
structure Call where
  before : Mem
  buffer : Nat
  size : Nat

/-- The `n` bytes at `buffer`. -/
def frameAt (m : Mem) (buffer n : Nat) : List UInt8 :=
  (List.range n).map fun i => m (buffer + i)

/-- The address that the constructor stores in send descriptor `i`. -/
def bufferAddress (this i : Nat) : Nat := align16 (sendBuffers this i)

/-- The rows of `sendBuffers`. -/
def InRows (this x : Nat) : Prop := this + 2167 ≤ x ∧ x < this + 18671

/-- The bytes of the object that nobody but the driver writes: the ring pointer, the address field
    of each send descriptor, the buffers and the counter.  The card writes the other fields. -/
def Owned (this x : Nat) : Prop :=
  (sendBufferDescr this ≤ x ∧ x < sendBufferDescr this + 4) ∨
  (∃ i < 8, align16 (sendBufferDescrMemory this) + 16 * i ≤ x ∧
    x < align16 (sendBufferDescrMemory this) + 16 * i + 4) ∨
  InRows this x ∨ x = currentSendBuffer this

/-- The driver of an object at `this`.  Between two calls any other memory may change; the frame is
    not in the send part of the object. -/
def sendSystem (this : Nat) : System State Call where
  init s := ∃ m, s = ⟨construct this m, []⟩
  step s c s' :=
    (∀ x, Owned this x → c.before x = s.mem x) ∧
    1 ≤ c.size ∧ c.size ≤ 1518 ∧ 0 < c.buffer ∧ c.buffer + c.size ≤ 2 ^ 32 ∧
    (c.buffer + c.size ≤ sendBufferDescr this ∨ recvBufferDescr this ≤ c.buffer) ∧
    s' = ⟨Send this c.before c.buffer c.size, s.frames ++ [frameAt c.before c.buffer c.size]⟩

/-- The object lies in the address space. -/
def Lies (this : Nat) : Prop := this + sizeofDriver ≤ 2 ^ 32

variable {this : Nat} {m m' : Mem}

theorem sendRing_eq (h : Lies this) :
    align16 (sendBufferDescrMemory this) = (this + 119) / 16 * 16 := by
  unfold Lies sizeofDriver at h
  unfold sendBufferDescrMemory
  rw [align16_eq (by omega)]

theorem recvRing_eq (h : Lies this) :
    align16 (recvBufferDescrMemory this) = (this + 18691) / 16 * 16 := by
  unfold Lies sizeofDriver at h
  unfold recvBufferDescrMemory
  rw [align16_eq (by omega)]

theorem bufferAddress_eq (h : Lies this) {i : Nat} (hi : i < 8) :
    bufferAddress this i = (this + 2182 + 8 * i) / 16 * 16 := by
  unfold Lies sizeofDriver at h
  unfold bufferAddress sendBuffers
  rw [align16_eq (by omega), show this + 2167 + 8 * i + 15 = this + 2182 + 8 * i by omega]

/-! ## §2. The descriptors. -/

/-- The pointer and the buffer addresses as the constructor leaves them. -/
structure Ring (this : Nat) (m : Mem) : Prop where
  pointer : readWord m (sendBufferDescr this) = align16 (sendBufferDescrMemory this)
  address : ∀ i < 8, readWord m (align16 (sendBufferDescrMemory this) + 16 * i)
    = bufferAddress this i

theorem Ring.descriptor (h : Ring this m) (i : Nat) :
    descriptor m (sendBufferDescr this) i = align16 (sendBufferDescrMemory this) + 16 * i := by
  unfold Am79c973.descriptor
  rw [h.pointer]

theorem Ring.congr (h : Ring this m) (hm : ∀ x, Owned this x → m' x = m x) : Ring this m' := by
  constructor
  · rw [readWord_congr fun x hx hx' => hm x (.inl ⟨hx, hx'⟩)]
    exact h.pointer
  · intro i hi
    rw [readWord_congr fun x hx hx' => hm x (.inr (.inl ⟨i, hi, hx, hx'⟩))]
    exact h.address i hi

/-- The two rings while the constructor's loop has filled `n` descriptors. -/
structure Filled (this : Nat) (m : Mem) (n : Nat) : Prop where
  send : readWord m (sendBufferDescr this) = align16 (sendBufferDescrMemory this)
  recv : readWord m (recvBufferDescr this) = align16 (recvBufferDescrMemory this)
  current : m (currentSendBuffer this) = 0
  address : ∀ i < n, readWord m (align16 (sendBufferDescrMemory this) + 16 * i)
    = bufferAddress this i

theorem Filled.next {n : Nat} (h : Filled this m n) (hthis : Lies this) (hn : n < 8) :
    Filled this (initDescriptor this m n) (n + 1) := by
  have hs : descriptor m (sendBufferDescr this) n = (this + 119) / 16 * 16 + 16 * n := by
    unfold Am79c973.descriptor
    rw [h.send, sendRing_eq hthis]
  have hr : descriptor m (recvBufferDescr this) n = (this + 18691) / 16 * 16 + 16 * n := by
    unfold Am79c973.descriptor
    rw [h.recv, recvRing_eq hthis]
  -- the body writes 16 bytes in each of the two descriptor memories
  have hout : ∀ x, (x < (this + 119) / 16 * 16 + 16 * n ∨ (this + 119) / 16 * 16 + 16 * n + 16 ≤ x) →
      (x < (this + 18691) / 16 * 16 + 16 * n ∨ (this + 18691) / 16 * 16 + 16 * n + 16 ≤ x) →
      initDescriptor this m n x = m x := by
    intro x hxs hxr
    exact initDescriptor_of_out (by rw [hs]; exact hxs) (by rw [hr]; exact hxr)
  constructor
  · rw [readWord_congr fun x hx hx' => hout x (by unfold sendBufferDescr at *; omega)
      (by unfold sendBufferDescr at *; omega)]
    exact h.send
  · rw [readWord_congr fun x hx hx' => hout x (by unfold recvBufferDescr at *; omega)
      (by unfold recvBufferDescr at *; omega)]
    exact h.recv
  · rw [hout _ (by unfold currentSendBuffer; omega) (by unfold currentSendBuffer; omega)]
    exact h.current
  · intro i hi
    rw [sendRing_eq hthis]
    by_cases hlast : i = n
    · subst hlast
      rw [← hs]
      exact initDescriptor_address (by omega)
    · rw [readWord_congr fun x hx hx' => hout x (by omega) (by omega)]
      rw [← sendRing_eq hthis]
      exact h.address i (by omega)

/-- What the constructor leaves. -/
theorem construct_filled (hthis : Lies this) (m : Mem) : Filled this (construct this m) 8 := by
  have hloop : ∀ (m₀ : Mem) (n : Nat), Filled this m₀ 0 → n ≤ 8 →
      Filled this ((List.range n).foldl (initDescriptor this) m₀) n := by
    intro m₀ n h₀
    induction n with
    | zero => exact fun _ => h₀
    | succ n ih =>
      intro hn
      rw [List.range_succ, List.foldl_append]
      exact (ih (by omega)).next hthis (by omega)
  unfold construct
  apply hloop _ 8 _ le_rfl
  have hs := sendRing_eq hthis
  have hr := recvRing_eq hthis
  unfold Lies sizeofDriver at hthis
  constructor
  · rw [read_write_apart _ _ (by unfold sendBufferDescr recvBufferDescr; omega)]
    exact read_write_self _ _ (by omega)
  · exact read_write_self _ _ (by omega)
  · rw [writeWord_of_out _ _ (by unfold currentSendBuffer recvBufferDescr; omega),
      writeWord_of_out _ _ (by unfold currentSendBuffer sendBufferDescr; omega),
      writeByte_of_ne _ _ (by unfold currentSendBuffer currentRecvBuffer; omega)]
    exact writeByte_self _ _ _
  · intro i hi
    omega

theorem construct_ring (hthis : Lies this) (m : Mem) : Ring this (construct this m) :=
  ⟨(construct_filled hthis m).send, (construct_filled hthis m).address⟩

/-! ## §3. One call of `Send`. -/

theorem frameAt_length (m : Mem) (buffer n : Nat) : (frameAt m buffer n).length = n := by
  simp [frameAt]

/-- The copy loop is a write of the frame. -/
theorem copyDown_eq {src dst n : Nat} (h : src + n ≤ dst ∨ dst + n ≤ src) (x : Nat) :
    copyDown m src dst n x = writeBytes m dst (frameAt m src n) x := by
  by_cases hin : dst ≤ x ∧ x < dst + n
  · obtain ⟨i, rfl⟩ : ∃ i, x = dst + i := ⟨x - dst, by omega⟩
    have hi : i < (frameAt m src n).length := by
      rw [frameAt_length]
      omega
    rw [copyDown_at m h (by omega), writeBytes_at m hi]
    simp [frameAt]
  · rw [copyDown_of_out m (by omega), writeBytes_of_out m (by rw [frameAt_length]; omega)]

section Call

variable {buffer size : Nat}

/-- `Send` with its pointers resolved. -/
theorem Send_eq (buffer : Nat) (h : Ring this m) {slot : Nat} (hslot : m (currentSendBuffer this) = UInt8.ofNat slot)
    (hlt : slot < 8) (hthis : Lies this) (hsize : size ≤ 1518) :
    ∃ v, Send this m buffer size =
      setFlags (setFlags2 (setAvail
        (copyDown (writeByte m (currentSendBuffer this) (UInt8.ofNat ((slot + 1) % 8))) buffer
          (bufferAddress this slot) size)
        (align16 (sendBufferDescrMemory this) + 16 * slot) 0)
        (align16 (sendBufferDescrMemory this) + 16 * slot) 0)
        (align16 (sendBufferDescrMemory this) + 16 * slot) v := by
  have hnat : (UInt8.ofNat slot).toNat = slot := by
    rw [UInt8.toNat_ofNat']
    omega
  have hs := sendRing_eq hthis
  have hptr : readWord (writeByte m (currentSendBuffer this) (UInt8.ofNat ((slot + 1) % 8)))
      (sendBufferDescr this) = align16 (sendBufferDescrMemory this) := by
    rw [read_writeByte_apart _ _ (by unfold currentSendBuffer sendBufferDescr; omega)]
    exact h.pointer
  have haddr : readWord (writeByte m (currentSendBuffer this) (UInt8.ofNat ((slot + 1) % 8)))
      (align16 (sendBufferDescrMemory this) + 16 * slot) = bufferAddress this slot := by
    rw [read_writeByte_apart _ _ (by unfold currentSendBuffer; omega)]
    exact h.address slot hlt
  have hclip : (if (size : Int) > 1518 then 1518 else (size : Int)) = size := if_neg (by omega)
  refine ⟨0x8300F000 ||| (-(size : Int) % 4096).toNat, ?_⟩
  unfold Send descriptor
  simp only [hslot, hnat, hptr, haddr, hclip, Int.toNat_natCast]

/-- Only the counter, the buffers and the rest of the descriptor are written. -/
theorem Send_ring (buffer : Nat) (h : Ring this m) {slot : Nat}
    (hslot : m (currentSendBuffer this) = UInt8.ofNat slot) (hlt : slot < 8) (hthis : Lies this)
    (hsize : size ≤ 1518) :
    Ring this (Send this m buffer size) ∧
      Send this m buffer size (currentSendBuffer this) = UInt8.ofNat ((slot + 1) % 8) := by
  obtain ⟨v, hv⟩ := Send_eq buffer h hslot hlt hthis hsize
  have hs := sendRing_eq hthis
  have hb := bufferAddress_eq hthis hlt
  have hout : ∀ x, (x < this + 2167 ∨ this + 18671 ≤ x) →
      (x < (this + 119) / 16 * 16 + 16 * slot + 4 ∨
        (this + 119) / 16 * 16 + 16 * slot + 16 ≤ x) →
      Send this m buffer size x
        = writeByte m (currentSendBuffer this) (UInt8.ofNat ((slot + 1) % 8)) x := by
    intro x hx hx'
    rw [hv]
    unfold setFlags setFlags2 setAvail
    rw [writeWord_of_out _ _ (by omega), writeWord_of_out _ _ (by omega),
      writeWord_of_out _ _ (by omega), copyDown_of_out _ (by omega)]
  have hkept : ∀ x, (x < this + 2167) →
      (x < (this + 119) / 16 * 16 + 16 * slot + 4 ∨
        (this + 119) / 16 * 16 + 16 * slot + 16 ≤ x) →
      Send this m buffer size x = m x := by
    intro x hx hx'
    rw [hout x (.inl hx) hx', writeByte_of_ne _ _ (by unfold currentSendBuffer; omega)]
  refine ⟨⟨?_, ?_⟩, ?_⟩
  · rw [readWord_congr fun x hx hx' => hkept x (by unfold sendBufferDescr at *; omega)
      (by unfold sendBufferDescr at *; omega)]
    exact h.pointer
  · intro i hi
    rw [readWord_congr fun x hx hx' => hkept x (by omega) (by omega)]
    exact h.address i hi
  · rw [hout _ (by unfold currentSendBuffer; omega) (by unfold currentSendBuffer; omega)]
    exact writeByte_self _ _ _

/-- In the rows, `Send` writes the frame at the address of its descriptor. -/
theorem Send_rows (h : Ring this m) {slot : Nat}
    (hslot : m (currentSendBuffer this) = UInt8.ofNat slot) (hlt : slot < 8) (hthis : Lies this)
    (hsize : size ≤ 1518)
    (hbuf : buffer + size ≤ sendBufferDescr this ∨ recvBufferDescr this ≤ buffer) {x : Nat}
    (hx : InRows this x) :
    Send this m buffer size x
      = writeBytes m (bufferAddress this slot) (frameAt m buffer size) x := by
  obtain ⟨v, hv⟩ := Send_eq buffer h hslot hlt hthis hsize
  have hs := sendRing_eq hthis
  have hb := bufferAddress_eq hthis hlt
  unfold InRows at hx
  unfold sendBufferDescr recvBufferDescr at hbuf
  -- the counter is neither in the frame nor in the rows
  have hframe : frameAt (writeByte m (currentSendBuffer this) (UInt8.ofNat ((slot + 1) % 8))) buffer
      size = frameAt m buffer size := by
    unfold frameAt
    apply List.map_congr_left
    intro i hi
    rw [List.mem_range] at hi
    exact writeByte_of_ne _ _ (by unfold currentSendBuffer; omega)
  rw [hv]
  unfold setFlags setFlags2 setAvail
  rw [writeWord_of_out _ _ (by omega), writeWord_of_out _ _ (by omega),
    writeWord_of_out _ _ (by omega), copyDown_eq (by omega), hframe]
  exact writeBytes_congr _ (writeByte_of_ne _ _ (by unfold currentSendBuffer; omega))

end Call

/-! ## §4. All calls of a run. -/

/-- The frames with the buffer each was copied to: the calls go around the eight descriptors. -/
def queue (this : Nat) (frames : List (List UInt8)) : List Write :=
  frames.mapIdx fun p f => (bufferAddress this (p % 8), f)

/-- The ring as the constructor made it, the counter at the next descriptor, and in the rows the
    frames laid over one another. -/
structure Queued (this : Nat) (s : State) : Prop where
  ring : Ring this s.mem
  current : s.mem (currentSendBuffer this) = UInt8.ofNat (s.frames.length % 8)
  short : ∀ f ∈ s.frames, f.length ≤ 1518
  rows : ∃ m₀, ∀ x, InRows this x → s.mem x = overlay m₀ (queue this s.frames) x

theorem queue_append (frames : List (List UInt8)) (f : List UInt8) :
    queue this (frames ++ [f])
      = queue this frames ++ [(bufferAddress this (frames.length % 8), f)] := by
  unfold queue
  rw [List.mapIdx_append]
  simp

theorem Queued.start (hthis : Lies this) (m : Mem) : Queued this ⟨construct this m, []⟩ := by
  have hfilled := construct_filled hthis m
  have hring := construct_ring hthis m
  -- what the constructor wrote stays folded
  generalize construct this m = m₁ at hfilled hring ⊢
  refine ⟨hring, hfilled.current, ?_, m₁, ?_⟩
  · intro f hf
    cases hf
  · intro x _
    rfl

theorem Queued.send {s s' : State} {c : Call} (h : Queued this s) (hthis : Lies this)
    (hstep : (sendSystem this).step s c s') : Queued this s' := by
  obtain ⟨howned, _, hsize, _, _, hbuf, rfl⟩ := hstep
  have hring : Ring this c.before := h.ring.congr howned
  have hcur : c.before (currentSendBuffer this) = UInt8.ofNat (s.frames.length % 8) := by
    rw [howned _ (.inr (.inr (.inr rfl)))]
    exact h.current
  have hlt : s.frames.length % 8 < 8 := Nat.mod_lt _ (by omega)
  obtain ⟨hring', hcur'⟩ := Send_ring c.buffer hring hcur hlt hthis hsize
  obtain ⟨m₀, hrows⟩ := h.rows
  refine ⟨hring', ?_, ?_, m₀, ?_⟩
  · show Send this c.before c.buffer c.size (currentSendBuffer this)
      = UInt8.ofNat ((s.frames ++ [frameAt c.before c.buffer c.size]).length % 8)
    rw [hcur', List.length_append, List.length_singleton, Nat.mod_add_mod]
  · intro f hf
    rcases List.mem_append.mp hf with hf | hf
    · exact h.short f hf
    · rw [List.mem_singleton.mp hf, frameAt_length]
      exact hsize
  · intro x hx
    show Send this c.before c.buffer c.size x
      = overlay m₀ (queue this (s.frames ++ [frameAt c.before c.buffer c.size])) x
    rw [queue_append, overlay_append, overlay_cons, overlay_nil,
      Send_rows hring hcur hlt hthis hsize hbuf hx]
    -- nobody else has written the rows since the last call
    apply writeBytes_congr
    rw [howned x (.inr (.inr (.inl hx)))]
    exact hrows x hx

/-- **The buffers of every reachable state.** -/
theorem queued_reachable {s : State} (hthis : Lies this) (h : (sendSystem this).Reachable s) :
    Queued this s := by
  refine h.invariant ?_ ?_
  · rintro s ⟨m, rfl⟩
    exact .start hthis m
  · intro s c s' hs hstep
    exact hs.send hthis hstep

/-! ## §5. The last eight frames. -/

/-- At the buffer address of each of the last eight used descriptors stands the frame passed to the
    `Send` that used it. -/
def Intact (this : Nat) (s : State) : Prop :=
  ∀ (p : Nat) (h : p < s.frames.length), s.frames.length ≤ p + 8 →
    Holds s.mem (readWord s.mem (descriptor s.mem (sendBufferDescr this) (p % 8)), s.frames[p])

/-- Any two of the last eight frames have the same bytes wherever their buffers overlap; the buffer
    of the `p`-th call starts at `&sendBuffers[p % 8]`, rounded up to a multiple of 16. -/
def Agreeing (this : Nat) (frames : List (List UInt8)) : Prop :=
  ∀ (p q : Nat) (hpq : p < q) (hq : q < frames.length), frames.length ≤ p + 8 →
    Agree (bufferAddress this (p % 8), frames[p]) (bufferAddress this (q % 8), frames[q])

/-- The rows hold every buffer. -/
theorem Queued.holds_iff {s : State} (h : Queued this s) (hthis : Lies this) {m₀ : Mem}
    (hrows : ∀ x, InRows this x → s.mem x = m₀ x) {p : Nat} (hp : p < s.frames.length) :
    Holds s.mem (readWord s.mem (descriptor s.mem (sendBufferDescr this) (p % 8)), s.frames[p]) ↔
      Holds m₀ (bufferAddress this (p % 8), s.frames[p]) := by
  have hlt : p % 8 < 8 := Nat.mod_lt _ (by omega)
  have hlen := h.short _ (List.getElem_mem hp)
  have hb := bufferAddress_eq hthis hlt
  rw [h.ring.descriptor, h.ring.address _ hlt]
  unfold Holds
  apply forall_congr'
  intro i
  apply forall_congr'
  intro hi
  have hi' : i < s.frames[p].length := hi
  rw [hrows _ (by unfold InRows; simp only; omega)]

/-- Frames that stand in the same memory agree. -/
theorem Queued.agreeing {s : State} (h : Queued this s) (hintact : Intact this s) :
    Agreeing this s.frames := by
  intro p q hpq hq hp
  have hholds : ∀ (r : Nat) (hr : r < s.frames.length), s.frames.length ≤ r + 8 →
      Holds s.mem (bufferAddress this (r % 8), s.frames[r]) := by
    intro r hr hr'
    have := hintact r hr hr'
    rw [h.ring.descriptor, h.ring.address _ (Nat.mod_lt _ (by omega))] at this
    exact this
  exact (hholds p (by omega) hp).agree (hholds q hq (by omega))

/-- Frames that agree are not spoiled by one another. -/
theorem Queued.intact {s : State} (h : Queued this s) (hthis : Lies this)
    (hagree : Agreeing this s.frames) : Intact this s := by
  obtain ⟨m₀, hrows⟩ := h.rows
  have hlen : (queue this s.frames).length = s.frames.length := List.length_mapIdx
  have hget : ∀ (p : Nat) (hp : p < s.frames.length) (hp' : p < (queue this s.frames).length),
      (queue this s.frames)[p] = (bufferAddress this (p % 8), s.frames[p]) :=
    fun p hp hp' => List.getElem_mapIdx
  intro p hp hp'
  rw [h.holds_iff hthis hrows hp, ← hget p hp (by omega)]
  -- the writes before the last eight are part of the memory that these are laid over
  apply (overlay_holds_iff m₀ (queue this s.frames) (s.frames.length - 8)).mpr _ p (by omega)
    (by omega)
  intro i j hij hj hi
  rw [hlen] at hj
  rw [hget i (by omega), hget j hj]
  exact hagree i j hij hj (by omega)

/-- **The frames of the last eight calls stand in their buffers exactly when any two of them have
    the same bytes wherever their buffers overlap**, for an object at any address, after any calls
    of `Send`. -/
theorem intact_iff_agree (this : Nat) (s : State) (hthis : Lies this)
    (h : (sendSystem this).Reachable s) : Intact this s ↔ Agreeing this s.frames := by
  have hq := queued_reachable hthis h
  exact ⟨hq.agreeing, hq.intact hthis⟩

/-! ## §6. Frames that are lost. -/

/-- What the driver owns lies in the object. -/
theorem Owned.ge (hthis : Lies this) {x : Nat} (h : Owned this x) : this + 100 ≤ x := by
  have hs := sendRing_eq hthis
  unfold Owned InRows sendBufferDescr currentSendBuffer at h
  rcases h with h | ⟨i, _, h, _⟩ | h | h <;> omega

/-- A short frame can be sent from the bottom of the memory. -/
theorem exists_send {s : State} (hthis : Lies this) (h : (sendSystem this).Reachable s)
    (f : List UInt8) (hne : 1 ≤ f.length) (hle : f.length < 100) :
    ∃ s', (sendSystem this).Reachable s' ∧ s'.frames = s.frames ++ [f] := by
  have hframe : frameAt (writeBytes s.mem 1 f) 1 f.length = f := by
    apply List.ext_getElem (frameAt_length _ _ _)
    intro i hi hi'
    simp only [frameAt, List.getElem_map, List.getElem_range]
    exact writeBytes_at s.mem hi'
  refine ⟨⟨Send this (writeBytes s.mem 1 f) 1 f.length, s.frames ++ [f]⟩, ?_, rfl⟩
  apply h.next (e := ⟨writeBytes s.mem 1 f, 1, f.length⟩)
  refine ⟨?_, hne, ?_, Nat.zero_lt_one, ?_, .inl ?_, ?_⟩
  · intro x hx
    have := hx.ge hthis
    exact writeBytes_of_out _ (.inr (by omega))
  · show f.length ≤ 1518
    omega
  · show 1 + f.length ≤ 2 ^ 32
    omega
  · show 1 + f.length ≤ this + 100
    omega
  · show _ = State.mk _ (s.frames ++ [frameAt (writeBytes s.mem 1 f) 1 f.length])
    rw [hframe]

/-- Any short frames can be sent one after the other. -/
theorem exists_sends (hthis : Lies this) (frames : List (List UInt8))
    (h : ∀ f ∈ frames, 1 ≤ f.length ∧ f.length < 100) :
    ∃ s, (sendSystem this).Reachable s ∧ s.frames = frames := by
  induction frames using List.reverseRecOn with
  | nil => exact ⟨⟨construct this (fun _ => 0), []⟩, .start ⟨_, rfl⟩, rfl⟩
  | append_singleton fs f ih =>
    obtain ⟨s, hs, hfs⟩ := ih fun g hg => h g (List.mem_append_left _ hg)
    obtain ⟨hne, hle⟩ := h f (List.mem_append_right _ (List.mem_singleton_self f))
    obtain ⟨s', hs', hfs'⟩ := exists_send hthis hs f hne hle
    exact ⟨s', hs', by rw [hfs', hfs]⟩

/-- The iff on two equal frames, of an object at `0x200000`. -/
theorem intact_iff_agree_twice : ∃ s, (sendSystem 0x200000).Reachable s ∧ s.frames = [[7], [7]] ∧
    (Intact 0x200000 s ↔ Agreeing 0x200000 s.frames) := by
  have hthis : Lies 0x200000 := by
    unfold Lies sizeofDriver
    omega
  obtain ⟨s, hs, hframes⟩ := exists_sends hthis [[7], [7]] (by decide)
  exact ⟨s, hs, hframes, intact_iff_agree 0x200000 s hthis hs⟩

/-- Of three descriptors in a row two neighbours have the same buffer. -/
theorem shared_buffer (hthis : Lies this) {i : Nat} (hi : i + 2 < 8) :
    bufferAddress this i = bufferAddress this (i + 1) ∨
      bufferAddress this (i + 1) = bufferAddress this (i + 2) := by
  rw [bufferAddress_eq hthis (by omega), bufferAddress_eq hthis (by omega),
    bufferAddress_eq hthis (by omega)]
  omega

/-- Wherever the object lies, one of the first three frames is lost. -/
theorem frame_lost (hthis : Lies this) :
    ∃ s, (sendSystem this).Reachable s ∧ s.frames = [[1], [2], [3]] ∧ ¬ Intact this s := by
  obtain ⟨s, hs, hframes⟩ := exists_sends hthis [[1], [2], [3]] (by decide)
  refine ⟨s, hs, hframes, fun hintact => ?_⟩
  have hagree := (queued_reachable hthis hs).agreeing hintact
  rw [hframes] at hagree
  rcases shared_buffer hthis (i := 0) (by omega) with h | h
  · have h01 : (1 : UInt8) = 2 :=
      hagree 0 1 (by decide) (by decide) (by decide) 0 0 Nat.zero_lt_one Nat.zero_lt_one h
    exact absurd h01 (by decide)
  · have h12 : (2 : UInt8) = 3 :=
      hagree 1 2 (by decide) (by decide) (by decide) 0 0 Nat.zero_lt_one Nat.zero_lt_one h
    exact absurd h12 (by decide)

/-- A `Send` does overwrite a frame that is queued in another descriptor. -/
theorem queued_frame_overwritten : ¬ ∀ (this : Nat) (s : State), Lies this →
    (sendSystem this).Reachable s → Intact this s := by
  intro h
  have hthis : Lies 0x200000 := by
    unfold Lies sizeofDriver
    omega
  obtain ⟨s, hs, _, hlost⟩ := frame_lost hthis
  exact hlost (h 0x200000 s hthis hs)

end SystemOS.Drivers.SendRing
