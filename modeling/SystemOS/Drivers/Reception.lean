/-
  SystemOS.Drivers.Reception — what becomes of the frames that the card stores.

  Main results:
    * `waiting_intact_iff`     — the frames that wait stand in their buffers exactly when any two of
      them have the same bytes wherever their buffers overlap.
    * `text_follows_queue`     — the driver shows the frames as a queue would, each with what its
      buffer holds behind it, as long as no frame spoils one that waits.
    * `handler_empties_ring`   — an undisturbed interrupt handler ends, and prints and hands back all
      that waits.
    * `announced_unless_late`  — a frame that waits is announced by the card, unless it was stored
      between the end of the loop and the acknowledgement.
-/
import SystemOS.Drivers.ReceiveRing

namespace SystemOS.Drivers.ReceiveRing

open SystemOS.Lib.ByteMemory SystemOS.Lib.Overlay SystemOS.Lib.Transition SystemOS.Lib.HandoverRing
open SystemOS.Kernel.Console SystemOS.Drivers.Am79c973 SystemOS.Drivers.SendRing

variable {this : Nat} {m m' : Mem} {s s' : State}

/-! ## §1. The bytes of the waiting frames. -/

/-- Every frame that waits stands in the buffer of its descriptor. -/
def WaitingIntact (this : Nat) (s : State) : Prop :=
  ∀ (p : Nat) (h : p < s.delivered.length), s.taken ≤ p →
    Holds s.mem (readWord s.mem (ring this + 16 * (p % 8)), s.delivered[p].bytes)

/-- Any two frames that wait have the same bytes wherever their buffers overlap. -/
def WaitingAgree (this : Nat) (s : State) : Prop :=
  ∀ (p q : Nat) (hpq : p < q) (hq : q < s.delivered.length), s.taken ≤ p →
    Agree (recvAddress this (p % 8), s.delivered[p].bytes)
      (recvAddress this (q % 8), s.delivered[q].bytes)

/-- Two memories that are the same in the rows hold the same frames. -/
theorem holds_congr (hthis : Lies this) (hm : ∀ x, InRecvRows this x → m' x = m x) {i : Nat}
    (hi : i < 8) {f : Frame} (hf : f.Stored) (h : Holds m (recvAddress this i, f.bytes)) :
    Holds m' (recvAddress this i, f.bytes) := by
  intro j hj
  have hfits := hf.fits
  have hj' : j < f.bytes.length := hj
  rw [hm _ (inRecvRows hthis hi (by omega))]
  exact h j hj

theorem Received.intact_iff (h : Received this s) (hthis : Lies this) {m₀ : Mem}
    (hrows : ∀ x, InRecvRows this x → s.mem x = m₀ x) : WaitingIntact this s ↔
      ∀ (p : Nat) (h : p < s.delivered.length), s.taken ≤ p →
        Holds m₀ (recvAddress this (p % 8), s.delivered[p].bytes) := by
  unfold WaitingIntact
  refine forall_congr' fun p => forall_congr' fun hp => forall_congr' fun _ => ?_
  have hi : p % 8 < 8 := Nat.mod_lt _ (by omega)
  have hf := h.stored _ (List.getElem_mem hp)
  rw [h.base.address _ hi]
  exact ⟨holds_congr hthis (fun x hx => (hrows x hx).symm) hi hf, holds_congr hthis hrows hi hf⟩

/-- **The frames that wait stand in their buffers exactly when any two of them agree**, for an
    object at any address, after any run of the card and the handler. -/
theorem waiting_intact_iff (this : Nat) (s : State) (hthis : Lies this)
    (h : (receiveSystem this).Reachable s) :
    s.waiting.length ≤ 8 ∧ (WaitingIntact this s ↔ WaitingAgree this s) := by
  have hr := received_reachable hthis h
  obtain ⟨m₀, hrows⟩ := hr.rows
  have hlen : (writes this s.delivered).length = s.delivered.length := List.length_mapIdx
  have hget : ∀ (p : Nat) (hp : p < s.delivered.length) (hp' : p < (writes this s.delivered).length),
      (writes this s.delivered)[p] = (recvAddress this (p % 8), s.delivered[p].bytes) :=
    fun p hp hp' => List.getElem_mapIdx
  have hfits := hr.handed.fits
  rw [List.length_map] at hfits
  refine ⟨hfits, ?_⟩
  rw [hr.intact_iff hthis hrows]
  -- the frames taken already are part of the memory that the waiting ones are laid over
  have hoverlay := overlay_holds_iff m₀ (writes this s.delivered) s.taken
  constructor
  · intro hholds p q hpq hq hp
    have := hoverlay.mp (fun r hr' hr => by
      rw [hget r (hlen ▸ hr')]
      exact hholds r (hlen ▸ hr') hr) p q hpq (hlen.symm ▸ hq) hp
    rwa [hget p (by omega), hget q hq] at this
  · intro hagree p hp hk
    rw [← hget p hp (hlen.symm ▸ hp)]
    refine hoverlay.mpr (fun i j hij hj hi => ?_) p (hlen.symm ▸ hp) hk
    rw [hlen] at hj
    rw [hget i (by omega), hget j hj]
    exact hagree i j hij hj hi

/-- A frame of 64 bytes, the shortest on an Ethernet. -/
def shortFrame : Frame := ⟨0x0300F7FF, 64, List.replicate 64 7⟩

theorem shortFrame_stored : shortFrame.Stored := ⟨by decide, by decide, by decide, by decide⟩

/-- The driver of an object at `0x200000`, before the first frame. -/
def bootState : State := ⟨construct 0x200000 (fun _ => 0), 0, false, .idle, [], [], 0⟩

theorem lies_boot : Lies 0x200000 := by
  unfold Lies sizeofDriver
  omega

theorem boot_reachable : (receiveSystem 0x200000).Reachable bootState := .start ⟨_, rfl⟩

/-- A frame can be stored as long as fewer than eight wait. -/
theorem Received.deliver_step (h : Received this s) (hroom : s.waiting.length < 8) {f : Frame}
    (hf : f.Stored) : (receiveSystem this).step s (.deliver f) { s with
      mem := store this s.mem s.next f
      next := (s.next + 1) % 8
      rint := true
      delivered := s.delivered ++ [f] } := ⟨hf, h.room_iff.mpr hroom, rfl⟩

theorem enter_step {temp : Nat} (hidle : s.phase = .idle) (htemp : Rint temp ↔ s.rint = true) :
    (receiveSystem this).step s (.enter temp) { s with
      phase := if Rint temp then .looping temp else .leaving temp
      printed := s.printed ++ statusText temp } := ⟨hidle, htemp, rfl⟩

theorem turn_step {temp : Nat} (hphase : s.phase = .looping temp)
    (hgiven : Given (flagsAt s.mem (currentDescriptor this s.mem))) :
    (receiveSystem this).step s .turn { s with
      mem := (receiveOne this s.mem).1
      printed := s.printed ++ (receiveOne this s.mem).2
      taken := s.taken + 1 } := ⟨⟨temp, hphase⟩, hgiven, rfl⟩

theorem acknowledge_step {temp : Nat} (hphase : s.phase = .leaving temp) :
    (receiveSystem this).step s .acknowledge { s with
      phase := .idle
      rint := if Rint temp then false else s.rint
      printed := s.printed ++ closingText temp } := ⟨temp, hphase, rfl⟩

/-- The driver at `0x200000` with one frame that waits. -/
theorem exists_waiting : ∃ s, (receiveSystem 0x200000).Reachable s ∧ s.phase = .idle ∧
    s.rint = true ∧ s.waiting = [shortFrame] := by
  have hstep := (received_reachable lies_boot boot_reachable).deliver_step (by decide)
    shortFrame_stored
  exact ⟨_, boot_reachable.next hstep, rfl, rfl, rfl⟩

/-- The iff with two frames in the ring. -/
theorem waiting_intact_iff_short : ∃ s, (receiveSystem 0x200000).Reachable s ∧
    s.waiting = [shortFrame, shortFrame] ∧
    s.waiting.length ≤ 8 ∧ (WaitingIntact 0x200000 s ↔ WaitingAgree 0x200000 s) := by
  obtain ⟨s, hs, _, _, hwaiting⟩ := exists_waiting
  have hr := received_reachable lies_boot hs
  have hstep := hr.deliver_step (by rw [hwaiting]; decide) shortFrame_stored
  refine ⟨_, hs.next hstep, ?_, waiting_intact_iff 0x200000 _ lies_boot (hs.next hstep)⟩
  show (s.delivered ++ [shortFrame]).drop s.taken = _
  rw [List.drop_append_of_le_length hr.taken_le]
  exact congrArg (· ++ [shortFrame]) hwaiting

/-! ## §2. What is printed. -/

/-- The bytes that the driver shows of a buffer: it takes the length of the buffer for that of the
    frame. -/
def shown : Nat := 0x7FF - 4

/-- What may be printed for a frame: nothing if it was not received whole, and otherwise a block of
    fixed length that begins with the frame, checksum and all. -/
def Frame.Shows (f : Frame) (t : Text) : Prop :=
  if Whole f.flags then
    ∃ behind, shown ≤ (f.bytes ++ behind).length ∧ t = dump ((f.bytes ++ behind).take shown)
  else t = []

/-- A queue of frames with the text printed for it, and the status word of the last interrupt. -/
structure Queue where
  waiting : List Frame
  temp : Nat
  printed : Text

/-- One event: a turn shows the oldest frame, and the loop ends when there is none. -/
inductive Queue.Step (q : Queue) : Event → Queue → Prop
  | elsewhere (m : Mem) : Queue.Step q (.elsewhere m) q
  | deliver (f : Frame) : Queue.Step q (.deliver f) { q with waiting := q.waiting ++ [f] }
  | enter (temp : Nat) : Queue.Step q (.enter temp)
      { q with temp := temp, printed := q.printed ++ statusText temp }
  | turn {f : Frame} {rest : List Frame} {t : Text} : q.waiting = f :: rest → f.Shows t →
      Queue.Step q .turn { q with waiting := rest, printed := q.printed ++ t }
  | leave : q.waiting = [] → Queue.Step q .leave q
  | acknowledge : Queue.Step q .acknowledge { q with printed := q.printed ++ closingText q.temp }

def Queue.empty : Queue := ⟨[], 0, []⟩

/-- The queue on its own. -/
def frameQueue : System Queue Event where
  init q := q = Queue.empty
  step := Queue.Step

/-- The event stores no frame over different bytes of one that waits. -/
def Spares (this : Nat) (s : State) : Event → Prop
  | .deliver f => ∀ (p : Nat) (h : p < s.delivered.length), s.taken ≤ p →
      Agree (recvAddress this (p % 8), s.delivered[p].bytes) (recvAddress this s.next, f.bytes)
  | _ => True

/-- The oldest frame that waits. -/
theorem waiting_cons {f : Frame} {rest : List Frame} (h : s.waiting = f :: rest) :
    ∃ hlt : s.taken < s.delivered.length, s.delivered[s.taken] = f ∧
      s.delivered.drop (s.taken + 1) = rest := by
  have hlen := waiting_length s
  rw [h, List.length_cons] at hlen
  have hlt : s.taken < s.delivered.length := by omega
  have hdrop : s.delivered[s.taken] :: s.delivered.drop (s.taken + 1) = f :: rest := by
    rw [List.getElem_cons_drop]
    exact h
  exact ⟨hlt, List.cons.inj hdrop⟩

/-- What a turn prints: as many bytes of the buffer as the oldest frame has. -/
theorem Received.turn_text (h : Received this s) {f : Frame} {rest : List Frame}
    (hwaiting : s.waiting = f :: rest) : (receiveOne this s.mem).2 =
      frameText f.flags (frameAt s.mem (recvAddress this (s.taken % 8)) (sizeOf f.flags)) := by
  have hi : s.taken % 8 < 8 := Nat.mod_lt _ (by omega)
  have hitem := h.handed.item 0 (by rw [hwaiting]; exact Nat.succ_pos _)
  have hflags : flagsAt s.mem (ring this + 16 * (s.taken % 8)) = f.flags := by
    rw [Nat.add_zero, Nat.mod_mod, List.getElem_map] at hitem
    unfold slotAt at hitem
    split at hitem
    · rw [Option.some.inj hitem]
      simp only [hwaiting, List.getElem_cons_zero]
    · cases hitem
  rw [receiveOne_eq h.base h.current hi, hflags]

/-- What is read where a block stands in the memory begins with the block. -/
theorem frameAt_begins {a : Nat} {bs : List UInt8} (h : Holds m (a, bs)) (n : Nat) :
    ∃ behind, n ≤ (bs ++ behind).length ∧ frameAt m a n = (bs ++ behind).take n := by
  refine ⟨frameAt m (a + bs.length) n, ?_, List.ext_getElem ?_ fun i hi hi' => ?_⟩
  · rw [List.length_append, frameAt_length]
    omega
  · rw [List.length_take, List.length_append, frameAt_length, frameAt_length]
    omega
  · simp only [frameAt, List.getElem_map, List.getElem_range, List.getElem_take]
    rcases Nat.lt_or_ge i bs.length with hlt | hge
    · rw [List.getElem_append_left hlt]
      exact h i hlt
    · rw [List.getElem_append_right hge, List.getElem_map, List.getElem_range]
      congr 1
      omega

/-- The length that the driver reads is that of the buffer. -/
theorem sizeOf_kept {flags : Nat} (h : flags &&& 0xFFFF = 0xF7FF) : sizeOf flags = shown := by
  have hlow : flags &&& 0xFFF = 0x7FF := by
    have hmask : flags &&& 0xFFF = flags &&& 0xFFFF &&& 0xFFF := by
      rw [Nat.and_assoc]
      rfl
    rw [hmask, h]
    rfl
  unfold sizeOf
  rw [hlow]
  rfl

/-- **A frame that stands in its buffer is shown.** -/
theorem Frame.Stored.shows {f : Frame} (hf : f.Stored) {a : Nat} (h : Holds m (a, f.bytes)) :
    f.Shows (frameText f.flags (frameAt m a (sizeOf f.flags))) := by
  unfold Frame.Shows frameText
  split
  · obtain ⟨behind, hlen, hbytes⟩ := frameAt_begins h shown
    rw [sizeOf_kept hf.kept, hbytes]
    exact ⟨behind, hlen, rfl⟩
  · rfl

/-- The driver is where the queue is, and no frame that waits is spoiled. -/
structure Follows (this : Nat) (s : State) (q : Queue) : Prop where
  received : Received this s
  intact : WaitingIntact this s
  waiting : s.waiting = q.waiting
  printed : s.printed = q.printed
  temp : ∀ temp, s.phase = .looping temp ∨ s.phase = .leaving temp → temp = q.temp

theorem Follows.turn {q : Queue} (h : Follows this s q) (hthis : Lies this)
    (hgiven : Given (flagsAt s.mem (currentDescriptor this s.mem))) :
    ∃ q', q.Step .turn q' ∧ Follows this { s with
      mem := (receiveOne this s.mem).1
      printed := s.printed ++ (receiveOne this s.mem).2
      taken := s.taken + 1 } q' := by
  have hr := h.received
  have hi : s.taken % 8 < 8 := Nat.mod_lt _ (by omega)
  obtain ⟨f, rest, hwaiting⟩ := List.exists_cons_of_ne_nil (hr.given_iff.mp hgiven)
  obtain ⟨hlt, hf, hrest⟩ := waiting_cons hwaiting
  have hring := ring_eq hthis
  have hrows : ∀ x, InRecvRows this x → (receiveOne this s.mem).1 x = s.mem x := by
    intro x hx
    unfold InRecvRows at hx
    exact receiveOne_of_out hr.base hr.current hi (by omega) (by unfold currentRecvBuffer; omega)
  have hstands := (hr.intact_iff hthis fun _ _ => rfl).mp h.intact s.taken hlt le_rfl
  rw [hf] at hstands
  have hshows := (hr.stored f (hf ▸ List.getElem_mem hlt)).shows hstands
  rw [← hr.turn_text hwaiting] at hshows
  have hnew := hr.turn hthis hgiven (s.printed ++ (receiveOne this s.mem).2)
  refine ⟨_, .turn (h.waiting.symm.trans hwaiting) hshows, hnew, ?_, hrest, ?_, h.temp⟩
  · rw [hnew.intact_iff hthis hrows]
    intro p hp hle
    exact (hr.intact_iff hthis fun _ _ => rfl).mp h.intact p hp (by simp only at hle; omega)
  · exact congrArg (· ++ (receiveOne this s.mem).2) h.printed

theorem Follows.deliver {q : Queue} (h : Follows this s q) (hthis : Lies this) {f : Frame}
    (hf : f.Stored) (hroom : ¬ Given (flagsAt s.mem (ring this + 16 * s.next)))
    (hspares : Spares this s (.deliver f)) :
    Follows this { s with
      mem := store this s.mem s.next f
      next := (s.next + 1) % 8
      rint := true
      delivered := s.delivered ++ [f] } { q with waiting := q.waiting ++ [f] } := by
  have hr := h.received
  have hnext : s.next < 8 := by
    rw [hr.next]
    exact Nat.mod_lt _ (by omega)
  have hnew := hr.deliver hthis hf hroom
  refine ⟨hnew, ?_, ?_, h.printed, h.temp⟩
  · rw [hnew.intact_iff hthis fun x hx => store_rows hr.base hthis hnext hx]
    intro p hp hle
    have hp' : p < (s.delivered ++ [f]).length := hp
    rw [List.length_append, List.length_singleton] at hp'
    show Holds _ (_, (s.delivered ++ [f])[p].bytes)
    rcases Nat.lt_or_ge p s.delivered.length with hlt | hge
    · rw [List.getElem_append_left hlt]
      exact ((hr.intact_iff hthis fun _ _ => rfl).mp h.intact p hlt hle).after (hspares p hlt hle)
    · have hlast : p = s.delivered.length := by omega
      subst hlast
      rw [List.getElem_concat_length rfl, ← hr.next]
      exact Holds.write s.mem (recvAddress this s.next, f.bytes)
  · show (s.delivered ++ [f]).drop s.taken = q.waiting ++ [f]
    rw [List.drop_append_of_le_length hr.taken_le, ← h.waiting]
    rfl

theorem Follows.step {q : Queue} (h : Follows this s q) (hthis : Lies this) {e : Event}
    (hspares : Spares this s e) (hstep : step this s e s') :
    ∃ q', q.Step e q' ∧ Follows this s' q' := by
  cases e with
  | elsewhere m =>
    obtain ⟨hm, rfl⟩ := hstep
    have hnew := h.received.elsewhere hm
    refine ⟨q, .elsewhere m, hnew, ?_, h.waiting, h.printed, h.temp⟩
    rw [hnew.intact_iff hthis fun x hx => hm x (.inr (.inr (.inl hx)))]
    exact (h.received.intact_iff hthis fun _ _ => rfl).mp h.intact
  | deliver f =>
    obtain ⟨hf, hroom, rfl⟩ := hstep
    exact ⟨_, .deliver f, h.deliver hthis hf hroom hspares⟩
  | enter temp =>
    obtain ⟨_, _, rfl⟩ := hstep
    have hr := h.received
    refine ⟨_, .enter temp, ⟨hr.base, hr.current, hr.next, hr.taken_le, hr.stored, hr.handed,
      hr.rows⟩, h.intact, h.waiting, congrArg (· ++ statusText temp) h.printed, ?_⟩
    intro temp' hphase
    show temp' = temp
    simp only at hphase
    split at hphase
    · rcases hphase with hphase | hphase <;> cases hphase
      rfl
    · rcases hphase with hphase | hphase <;> cases hphase
      rfl
  | turn =>
    obtain ⟨_, hgiven, rfl⟩ := hstep
    exact h.turn hthis hgiven
  | leave =>
    obtain ⟨temp, hphase, hdone, rfl⟩ := hstep
    have hr := h.received
    have hnone : q.waiting = [] := by
      rw [← h.waiting]
      by_contra hne
      exact hdone (hr.given_iff.mpr hne)
    refine ⟨q, .leave hnone, ⟨hr.base, hr.current, hr.next, hr.taken_le, hr.stored, hr.handed,
      hr.rows⟩, h.intact, h.waiting, h.printed, ?_⟩
    intro temp' hphase'
    rcases hphase' with hphase' | hphase' <;> cases hphase'
    exact h.temp temp (.inl hphase)
  | acknowledge =>
    obtain ⟨temp, hphase, rfl⟩ := hstep
    have hr := h.received
    refine ⟨_, .acknowledge, ⟨hr.base, hr.current, hr.next, hr.taken_le, hr.stored, hr.handed,
      hr.rows⟩, h.intact, h.waiting, ?_, ?_⟩
    · show s.printed ++ closingText temp = q.printed ++ closingText q.temp
      rw [h.printed, h.temp temp (.inr hphase)]
    · intro temp' hphase'
      rcases hphase' with hphase' | hphase' <;> cases hphase'

/-- **The driver follows the queue.**  Along every run in which no frame is stored over different
    bytes of a frame that waits, each frame received whole is shown once, in the order in which the
    card stored them, in a block of fixed length that begins with it. -/
theorem text_follows_queue (this : Nat) (s t : State) (es : List Event) (hthis : Lies this)
    (hinit : (receiveSystem this).init s)
    (hrun : ((receiveSystem this).restrict (Spares this)).Exec s es t) :
    ∃ q, frameQueue.Exec Queue.empty es q ∧ t.printed = q.printed ∧ t.waiting = q.waiting := by
  obtain ⟨m, rfl⟩ := hinit
  have hstart : Follows this ⟨construct this m, 0, false, .idle, [], [], 0⟩ Queue.empty :=
    ⟨.start hthis m, fun p hp => absurd hp (Nat.not_lt_zero p), rfl, rfl,
      fun temp hphase => by rcases hphase with hphase | hphase <;> cases hphase⟩
  obtain ⟨q, hqueue, hend⟩ := System.Exec.simulates (T := frameQueue)
    (fun s q e s' h hst => h.step hthis hst.1 hst.2) hrun hstart
  exact ⟨q, hqueue, hend.printed, hend.waiting⟩

/-- One frame comes in and is shown. -/
theorem text_follows_queue_short : ∃ t q, ((receiveSystem 0x200000).restrict (Spares 0x200000)).Exec
      bootState [.deliver shortFrame, .enter 0x0400, .turn] t ∧
    frameQueue.Exec Queue.empty [.deliver shortFrame, .enter 0x0400, .turn] q ∧
      t.printed = q.printed ∧ t.waiting = q.waiting := by
  have hdeliver := (received_reachable lies_boot boot_reachable).deliver_step (by decide)
    shortFrame_stored
  have hspares : Spares 0x200000 bootState (.deliver shortFrame) :=
    fun p hp => absurd hp (Nat.not_lt_zero p)
  have henter : ∀ s, Spares 0x200000 s (.enter 0x0400) := fun _ => trivial
  have hturn : ∀ s, Spares 0x200000 s .turn := fun _ => trivial
  have hentered := System.Exec.cons (S := (receiveSystem 0x200000).restrict (Spares 0x200000))
    (e := .deliver shortFrame) ⟨hspares, hdeliver⟩
    (.cons (e := .enter 0x0400) ⟨henter _, enter_step rfl (iff_of_true (by decide) rfl)⟩ (.nil _))
  have hlooping := received_reachable lies_boot (hentered.of_restrict.reachable boot_reachable)
  have hrun := hentered.append
    (.cons (e := .turn) ⟨hturn _, turn_step rfl (hlooping.given_iff.mpr nofun)⟩ (.nil _))
  obtain ⟨q, h⟩ := text_follows_queue 0x200000 _ _ _ lies_boot ⟨_, rfl⟩ hrun
  exact ⟨_, q, hrun, h⟩

/-! ## §3. An undisturbed handler. -/

/-- The loop ends after the frames that wait, and its turns are turns of the system. -/
theorem loop_ends (hthis : Lies this) {temp fuel : Nat} (hr : Received this s)
    (hphase : s.phase = .looping temp) (hfuel : s.waiting.length ≤ fuel) :
    ∃ m' printed es, receiveLoop this fuel s.mem = some (m', printed) ∧
      (receiveSystem this).Exec s es { s with
        mem := m'
        phase := .leaving temp
        printed := s.printed ++ printed
        taken := s.delivered.length } ∧
      ∀ e ∈ es, e = .turn ∨ e = .leave := by
  induction fuel generalizing s with
  | zero =>
    have hnone : s.waiting = [] := List.eq_nil_of_length_eq_zero (Nat.le_zero.mp hfuel)
    have hdone : ¬ Given (flagsAt s.mem (currentDescriptor this s.mem)) :=
      fun hgiven => hr.given_iff.mp hgiven hnone
    have htaken : s.taken = s.delivered.length :=
      Nat.le_antisymm hr.taken_le (List.drop_eq_nil_iff.mp hnone)
    refine ⟨s.mem, [], [.leave], if_neg hdone, .cons ⟨temp, hphase, hdone, ?_⟩ (.nil _), by simp⟩
    rw [List.append_nil, ← htaken]
  | succ fuel ih =>
    by_cases hgiven : Given (flagsAt s.mem (currentDescriptor this s.mem))
    · have hne := hr.given_iff.mp hgiven
      have hstep := turn_step hphase hgiven
      have hlen : (s.delivered.drop (s.taken + 1)).length ≤ fuel := by
        have hpos := List.length_pos_of_ne_nil hne
        rw [waiting_length] at hfuel hpos
        rw [List.length_drop]
        omega
      obtain ⟨m', printed, es, hloop, hrun, hes⟩ := ih (hr.step (e := .turn) hthis hstep) hphase hlen
      refine ⟨m', (receiveOne this s.mem).2 ++ printed, .turn :: es, ?_, .cons hstep ?_, ?_⟩
      · rw [receiveLoop, if_pos hgiven]
        simp only [hloop, Option.map_some]
      · rw [← List.append_assoc]
        exact hrun
      · intro e he
        rcases List.mem_cons.mp he with rfl | he
        · exact .inl rfl
        · exact hes e he
    · have hnone : s.waiting = [] := by
        by_contra hne
        exact hgiven (hr.given_iff.mpr hne)
      have htaken : s.taken = s.delivered.length :=
        Nat.le_antisymm hr.taken_le (List.drop_eq_nil_iff.mp hnone)
      refine ⟨s.mem, [], [.leave], if_neg hgiven, .cons ⟨temp, hphase, hgiven, ?_⟩ (.nil _), by simp⟩
      rw [List.append_nil, ← htaken]

/-- A ring without waiting frames is the card's. -/
theorem Received.all_free (h : Received this s) (hnone : s.waiting = []) {i : Nat} (hi : i < 8) :
    ¬ Given (flagsAt s.mem (ring this + 16 * i)) := by
  obtain ⟨j, hj, rfl⟩ := exists_offset h.handed.head_lt hi
  rw [← slotAt_eq_none]
  exact h.handed.free j (by rw [hnone]; exact Nat.zero_le _) hj

/-- **An interrupt handler that nobody disturbs ends**: it makes at most eight turns, prints what
    waits, hands every descriptor back to the card and clears the announcement. -/
theorem handler_empties_ring (this : Nat) (s : State) (temp : Nat) (hthis : Lies this)
    (hreach : (receiveSystem this).Reachable s) (hidle : s.phase = .idle)
    (htemp : Rint temp ↔ s.rint = true) :
    ∃ m' printed es t, HandleInterrupt this temp s.mem = some (m', printed) ∧
      (receiveSystem this).Exec s es t ∧
      (∀ e ∈ es, e = .enter temp ∨ e = .turn ∨ e = .leave ∨ e = .acknowledge) ∧
      t.mem = m' ∧ t.printed = s.printed ++ printed ∧ t.phase = .idle ∧
      (Rint temp → t.waiting = [] ∧ t.rint = false ∧
        ∀ i < 8, ¬ Given (flagsAt m' (ring this + 16 * i))) := by
  have hr := received_reachable hthis hreach
  have henter := @enter_step this _ _ hidle htemp
  by_cases hrint : Rint temp
  · rw [if_pos hrint] at henter
    have hfits := hr.handed.fits
    rw [List.length_map] at hfits
    obtain ⟨m', printed, es, hloop, hrun, hes⟩ :=
      loop_ends hthis (hr.step (e := .enter temp) hthis henter) rfl hfits
    have hall := (System.Exec.cons henter hrun).append (.cons (acknowledge_step rfl) (.nil _))
    have hnone : s.delivered.drop s.delivered.length = [] := List.drop_length
    have hfuel : receiveLoop this 8 s.mem = some (m', printed) := hloop
    refine ⟨m', statusText temp ++ printed ++ closingText temp, _, _, ?_, hall, ?_, rfl, ?_, rfl,
      fun _ => ⟨hnone, if_pos hrint, fun i hi => ?_⟩⟩
    · unfold HandleInterrupt
      rw [if_pos (show temp &&& 0x0400 = 0x0400 from hrint), hfuel]
      rfl
    · intro e he
      rcases List.mem_append.mp he with he | he
      · rcases List.mem_cons.mp he with rfl | he
        · exact .inl rfl
        · rcases hes e he with h | h
          · exact .inr (.inl h)
          · exact .inr (.inr (.inl h))
      · exact .inr (.inr (.inr (List.mem_singleton.mp he)))
    · simp only [List.append_assoc]
    · exact (received_reachable hthis (hall.reachable hreach)).all_free hnone hi
  · rw [if_neg hrint] at henter
    have hall := System.Exec.cons henter (.cons (acknowledge_step rfl) (.nil _))
    refine ⟨s.mem, statusText temp ++ closingText temp, _, _, if_neg hrint, hall, by simp, rfl, ?_,
      rfl, fun h => absurd h hrint⟩
    simp only [List.append_assoc]

/-- The handler with one frame that waits. -/
theorem handler_empties_ring_short : ∃ s m' printed es t,
    (receiveSystem 0x200000).Reachable s ∧ s.waiting = [shortFrame] ∧
    HandleInterrupt 0x200000 0x0400 s.mem = some (m', printed) ∧
      (receiveSystem 0x200000).Exec s es t ∧
      (∀ e ∈ es, e = .enter 0x0400 ∨ e = .turn ∨ e = .leave ∨ e = .acknowledge) ∧
      t.mem = m' ∧ t.printed = s.printed ++ printed ∧ t.phase = .idle ∧
      (Rint 0x0400 → t.waiting = [] ∧ t.rint = false ∧
        ∀ i < 8, ¬ Given (flagsAt m' (ring 0x200000 + 16 * i))) := by
  obtain ⟨s, hs, hidle, hrint, hwaiting⟩ := exists_waiting
  obtain ⟨m', printed, es, t, h⟩ := handler_empties_ring 0x200000 s 0x0400 lies_boot hs hidle
    (iff_of_true (by decide) hrint)
  exact ⟨s, m', printed, es, t, hs, hwaiting, h⟩

/-! ## §4. Frames that nobody announces. -/

/-- The event stores a frame after the loop has ended and before the status bit that announced the
    frames before it is cleared. -/
def Late (s : State) : Event → Prop
  | .deliver _ => ∃ temp, s.phase = .leaving temp ∧ Rint temp
  | _ => False

/-- A frame that waits is announced, and none waits where the announcement is about to be cleared. -/
structure Announced (s : State) : Prop where
  rint : s.waiting ≠ [] → s.rint = true
  left : ∀ temp, s.phase = .leaving temp → Rint temp → s.waiting = []

theorem Announced.step (h : Announced s) (hr : Received this s) {e : Event} (hlate : ¬ Late s e)
    (hstep : step this s e s') : Announced s' := by
  cases e with
  | elsewhere m =>
    obtain ⟨_, rfl⟩ := hstep
    exact ⟨h.rint, h.left⟩
  | deliver f =>
    obtain ⟨_, _, rfl⟩ := hstep
    exact ⟨fun _ => rfl, fun temp hphase hrint => absurd ⟨temp, hphase, hrint⟩ hlate⟩
  | enter temp =>
    obtain ⟨_, _, rfl⟩ := hstep
    refine ⟨h.rint, fun temp' hphase hrint => ?_⟩
    -- the handler leaves at once only where no frame is announced
    simp only at hphase
    split at hphase
    · cases hphase
    · next hnot =>
      cases hphase
      exact absurd hrint hnot
  | turn =>
    obtain ⟨⟨temp, hphase⟩, hgiven, rfl⟩ := hstep
    refine ⟨fun _ => h.rint (hr.given_iff.mp hgiven), fun temp' hphase' => ?_⟩
    rw [hphase] at hphase'
    cases hphase'
  | leave =>
    obtain ⟨temp, _, hdone, rfl⟩ := hstep
    have hnone : s.waiting = [] := by
      by_contra hne
      exact hdone (hr.given_iff.mpr hne)
    exact ⟨h.rint, fun _ _ _ => hnone⟩
  | acknowledge =>
    obtain ⟨temp, hphase, rfl⟩ := hstep
    refine ⟨fun hne => ?_, fun _ hphase' => nomatch hphase'⟩
    show (if Rint temp then false else s.rint) = true
    rw [if_neg fun hrint => hne (h.left temp hphase hrint)]
    exact h.rint hne

/-- Nothing is announced and the loop is not about to run. -/
structure Asleep (s : State) : Prop where
  rint : s.rint = false
  phase : s.phase = .idle ∨ ∃ temp, s.phase = .leaving temp ∧ ¬ Rint temp

theorem Asleep.step (h : Asleep s) {e : Event} (hstep : step this s e s')
    (hno : ∀ f, e ≠ .deliver f) : Asleep s' ∧ s'.waiting = s.waiting := by
  have hphase := h.phase
  cases e with
  | elsewhere m =>
    obtain ⟨_, rfl⟩ := hstep
    exact ⟨⟨h.rint, hphase⟩, rfl⟩
  | deliver f => exact absurd rfl (hno f)
  | enter temp =>
    obtain ⟨_, hrint, rfl⟩ := hstep
    have hnot : ¬ Rint temp := by
      rw [hrint, h.rint]
      exact Bool.false_ne_true
    refine ⟨⟨h.rint, .inr ⟨temp, ?_, hnot⟩⟩, rfl⟩
    exact if_neg hnot
  | turn =>
    obtain ⟨⟨temp, hloop⟩, _, _⟩ := hstep
    rw [hloop] at hphase
    rcases hphase with hphase | ⟨_, hphase, _⟩ <;> cases hphase
  | leave =>
    obtain ⟨temp, hloop, _, _⟩ := hstep
    rw [hloop] at hphase
    rcases hphase with hphase | ⟨_, hphase, _⟩ <;> cases hphase
  | acknowledge =>
    obtain ⟨temp, hleaving, rfl⟩ := hstep
    have hnot : ¬ Rint temp := by
      rw [hleaving] at hphase
      rcases hphase with hphase | ⟨temp', hphase, hnot⟩ <;> cases hphase
      exact hnot
    refine ⟨⟨?_, .inl rfl⟩, rfl⟩
    show (if Rint temp then false else s.rint) = false
    rw [if_neg hnot, h.rint]

theorem Asleep.exec {t : State} {es : List Event} (h : Asleep s)
    (hrun : (receiveSystem this).Exec s es t) (hno : ∀ e ∈ es, ∀ f, e ≠ .deliver f) :
    t.waiting = s.waiting ∧ t.rint = false := by
  induction hrun with
  | nil _ => exact ⟨rfl, h.rint⟩
  | cons hst _ ih =>
    obtain ⟨hasleep, hsame⟩ := h.step hst (hno _ List.mem_cons_self)
    obtain ⟨hwaiting, hrint⟩ := ih hasleep fun e he => hno e (List.mem_cons_of_mem _ he)
    exact ⟨hwaiting.trans hsame, hrint⟩

/-- **A frame that waits is announced, unless it came late.**  A late frame waits without an
    announcement until the card stores another one. -/
theorem announced_unless_late (this : Nat) (hthis : Lies this) :
    (∀ s, ((receiveSystem this).restrict fun s e => ¬ Late s e).Reachable s →
      s.waiting ≠ [] → s.rint = true) ∧
    ∀ s f s₁ s₂ es t, (receiveSystem this).Reachable s → Late s (.deliver f) →
      (receiveSystem this).step s (.deliver f) s₁ → (receiveSystem this).step s₁ .acknowledge s₂ →
      (receiveSystem this).Exec s₂ es t → (∀ e ∈ es, ∀ g, e ≠ .deliver g) →
      f ∈ t.waiting ∧ t.rint = false := by
  constructor
  · intro s hreach
    have hboth : Received this s ∧ Announced s := by
      refine hreach.invariant (I := fun s => Received this s ∧ Announced s) ?_ ?_
      · rintro s ⟨m, rfl⟩
        exact ⟨.start hthis m, fun h => absurd rfl h, fun _ h => nomatch h⟩
      · rintro s e s' ⟨hr, ha⟩ ⟨hlate, hstep⟩
        exact ⟨hr.step hthis hstep, ha.step hr hlate hstep⟩
    exact hboth.2.rint
  · rintro s f s₁ s₂ es t hreach ⟨temp, hphase, hrint⟩ ⟨_, _, rfl⟩ ⟨temp', hphase', rfl⟩ hrun hno
    have hr := received_reachable hthis hreach
    have htemp : temp' = temp := by
      have := hphase'.symm.trans hphase
      exact Phase.leaving.inj this
    subst htemp
    obtain ⟨hwaiting, hquiet⟩ := Asleep.exec ⟨if_pos hrint, .inl rfl⟩ hrun hno
    refine ⟨?_, hquiet⟩
    rw [hwaiting]
    show f ∈ (s.delivered ++ [f]).drop s.taken
    rw [List.drop_append_of_le_length hr.taken_le]
    exact List.mem_append_right _ (List.mem_singleton_self f)

/-- Two frames come in, the second one late: it waits, and no interrupt is on its way. -/
theorem frame_unannounced : ∃ t, (receiveSystem 0x200000).Reachable t ∧ shortFrame ∈ t.waiting ∧
    t.rint = false := by
  obtain ⟨s, hs, hidle, hrint, hwaiting⟩ := exists_waiting
  have henter := @enter_step 0x200000 _ 0x0400 hidle (iff_of_true (by decide) hrint)
  have hlooping := received_reachable lies_boot (hs.next henter)
  obtain ⟨m', printed, es, _, hrun, _⟩ := @loop_ends _ _ lies_boot 0x0400 8 hlooping
    rfl (by show s.waiting.length ≤ 8; rw [hwaiting]; decide)
  have hleaving := hrun.reachable (hs.next henter)
  have hlate := (received_reachable lies_boot hleaving).deliver_step
    (by rw [waiting_length, Nat.sub_self]; decide) shortFrame_stored
  refine ⟨_, (hleaving.next hlate).next (@acknowledge_step _ _ 0x0400 rfl), ?_⟩
  exact (announced_unless_late 0x200000 lies_boot).2 _ _ _ _ [] _ hleaving
    ⟨0x0400, rfl, by decide⟩ hlate (@acknowledge_step _ _ 0x0400 rfl) (.nil _)
    (fun e he => nomatch he)

end SystemOS.Drivers.ReceiveRing
