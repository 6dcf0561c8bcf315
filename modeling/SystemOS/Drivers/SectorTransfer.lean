/-
  SystemOS.Drivers.SectorTransfer — how many words go through the data port.

  A drive transfers whole sectors of 256 words.  `Read28` reads `count` bytes, rounded up to words,
  and then the rest of 512; `Write28` does the same with writes, but refuses more than 512 bytes.

  Main results:
    * `counted_Read28`, `counted_Write28` — the counting bus changes nothing.
    * `wholeSector_iff` — when both functions transfer exactly one sector.
-/
import SystemOS.Drivers.Ata

namespace SystemOS.Drivers.SectorTransfer

open SystemOS.Drivers.Ata

/-! ## §1. A bus that counts. -/

/-- The hardware, and how often the data port was read and written. -/
structure Counted (σ : Type) where
  hardware : σ
  reads : Nat
  writes : Nat

variable {σ : Type}

/-- One access more, if it is one of the data port. -/
def bump (n : Nat) : Port → Nat
  | .dataPort => n + 1
  | _ => n

/-- The bus, with the accesses to the data port counted. -/
def counted (bus : Bus σ) : Bus (Counted σ) where
  outb c p v := { c with hardware := bus.outb c.hardware p v }
  inb c p := ((bus.inb c.hardware p).1, { c with hardware := (bus.inb c.hardware p).2 })
  outw c p v := { c with hardware := bus.outw c.hardware p v, writes := bump c.writes p }
  inw c p := ((bus.inw c.hardware p).1,
    { c with hardware := (bus.inw c.hardware p).2, reads := bump c.reads p })

variable (bus : Bus σ) (master : Bool) (sectorNum : UInt32)

theorem counted_issue (cmd : UInt8) (c : Counted σ) : issue (counted bus) master sectorNum cmd c
    = { c with hardware := issue bus master sectorNum cmd c.hardware } := rfl

/-- The loop on the status register leaves the data port alone. -/
theorem counted_poll (fuel : Nat) (c : Counted σ) : poll (counted bus) fuel c
    = ((poll bus fuel c.hardware).1, { c with hardware := (poll bus fuel c.hardware).2 }) := by
  induction fuel generalizing c with
  | zero => rfl
  | succ fuel ih =>
    by_cases hbusy : (bus.inb c.hardware .commandPort).1 &&& 0x80 = 0x80
        ∧ (bus.inb c.hardware .commandPort).1 &&& 0x01 ≠ 0x01
    · have hcounted : poll (counted bus) (fuel + 1) c
          = poll (counted bus) fuel { c with hardware := (bus.inb c.hardware .commandPort).2 } :=
        if_pos hbusy
      have hbus : poll bus (fuel + 1) c.hardware
          = poll bus fuel (bus.inb c.hardware .commandPort).2 := if_pos hbusy
      rw [hcounted, hbus, ih]
    · have hcounted : poll (counted bus) (fuel + 1) c = (some (bus.inb c.hardware .commandPort).1,
          { c with hardware := (bus.inb c.hardware .commandPort).2 }) := if_neg hbusy
      have hbus : poll bus (fuel + 1) c.hardware = (some (bus.inb c.hardware .commandPort).1,
          (bus.inb c.hardware .commandPort).2) := if_neg hbusy
      rw [hcounted, hbus]

/-! ## §2. Reading. -/

theorem counted_readTexts (count : Int) (n : Nat) (i : Int) (c : Counted σ) :
    readTexts (counted bus) count n i c = ((readTexts bus count n i c.hardware).1,
      { c with hardware := (readTexts bus count n i c.hardware).2, reads := c.reads + n }) := by
  induction n generalizing i c with
  | zero => rfl
  | succ n ih =>
    rw [readTexts, readTexts]
    simp only
    rw [ih]
    show (_, Counted.mk _ (c.reads + 1 + n) _) = (_, Counted.mk _ (c.reads + (n + 1)) _)
    rw [Nat.add_assoc, Nat.add_comm 1 n]
    rfl

theorem counted_readRest (n : Nat) (c : Counted σ) : readRest (counted bus) n c
    = { c with hardware := readRest bus n c.hardware, reads := c.reads + n } := by
  induction n generalizing c with
  | zero => rfl
  | succ n ih =>
    rw [readRest, readRest, ih]
    show Counted.mk _ (c.reads + 1 + n) _ = Counted.mk _ (c.reads + (n + 1)) _
    rw [Nat.add_assoc, Nat.add_comm 1 n]
    rfl

variable (fuel : Nat) (count : Int)

/-- **Counting changes nothing** for `Read28`. -/
theorem counted_Read28 (c : Counted σ) :
    (Read28 (counted bus) fuel master sectorNum count c).1
        = (Read28 bus fuel master sectorNum count c.hardware).1
      ∧ (Read28 (counted bus) fuel master sectorNum count c).2.hardware
        = (Read28 bus fuel master sectorNum count c.hardware).2 := by
  unfold Read28
  split
  · exact ⟨rfl, rfl⟩
  · rw [counted_issue, counted_poll]
    rcases poll bus fuel (issue bus master sectorNum 0x20 c.hardware) with ⟨_ | status, hw⟩
    · exact ⟨rfl, rfl⟩
    · simp only
      split
      · exact ⟨rfl, rfl⟩
      · rw [counted_readTexts, counted_readRest]
        exact ⟨rfl, rfl⟩

/-- How often a call of `Read28` reads the data port. -/
def reads28 (c : σ) : Nat :=
  (Read28 (counted bus) fuel master sectorNum count ⟨c, 0, 0⟩).2.reads

/-- The drive that has got the command becomes ready, and reports no error. -/
def Ready (cmd : UInt8) (c : σ) : Prop :=
  ∃ status c', poll bus fuel (issue bus master sectorNum cmd c) = (some status, c')
    ∧ status &&& 0x01 = 0

theorem reads28_turns {c : σ} (hs : sectorNum ≤ 0x0FFFFFFF)
    (hready : Ready bus master sectorNum fuel 0x20 c) :
    reads28 bus master sectorNum fuel count c
      = turns 0 count + turns (count + count.tmod 2) 512 := by
  obtain ⟨status, c', hpoll, hstatus⟩ := hready
  unfold reads28 Read28
  rw [if_neg (UInt32.not_lt.mpr hs), counted_issue, counted_poll, hpoll]
  simp only
  rw [if_neg (not_not.mpr hstatus), counted_readTexts, counted_readRest]
  show 0 + _ + _ = _
  rw [Nat.zero_add]

/-- The two loops of `Read28` make 256 turns together exactly for the sizes of a sector. -/
theorem turns_eq_iff (count : Int) :
    turns 0 count + turns (count + count.tmod 2) 512 = 256 ↔ 0 ≤ count ∧ count ≤ 512 := by
  unfold turns
  rcases Int.le_total 0 count with hcount | hcount
  · rw [Int.tmod_eq_emod_of_nonneg hcount]
    omega
  · obtain ⟨n, rfl⟩ : ∃ n : Nat, count = -n := ⟨count.natAbs, by omega⟩
    rw [Int.neg_tmod, Int.tmod_eq_emod_of_nonneg (by omega)]
    omega

/-! ## §3. Writing. -/

theorem counted_writeTexts (data : Nat → UInt8) (count n i : Nat) (c : Counted σ) :
    writeTexts (counted bus) data count n i c = ((writeTexts bus data count n i c.hardware).1,
      { c with hardware := (writeTexts bus data count n i c.hardware).2,
               writes := c.writes + n }) := by
  induction n generalizing i c with
  | zero => rfl
  | succ n ih =>
    rw [writeTexts, writeTexts]
    simp only
    rw [ih]
    show (_, Counted.mk _ _ (c.writes + 1 + n)) = (_, Counted.mk _ _ (c.writes + (n + 1)))
    rw [Nat.add_assoc, Nat.add_comm 1 n]
    rfl

theorem counted_writeRest (n : Nat) (c : Counted σ) : writeRest (counted bus) n c
    = { c with hardware := writeRest bus n c.hardware, writes := c.writes + n } := by
  induction n generalizing c with
  | zero => rfl
  | succ n ih =>
    rw [writeRest, writeRest, ih]
    show Counted.mk _ _ (c.writes + 1 + n) = Counted.mk _ _ (c.writes + (n + 1))
    rw [Nat.add_assoc, Nat.add_comm 1 n]
    rfl

variable (data : Nat → UInt8) (n : Nat)

/-- **Counting changes nothing** for `Write28`. -/
theorem counted_Write28 (c : Counted σ) :
    (Write28 (counted bus) master sectorNum data n c).1
        = (Write28 bus master sectorNum data n c.hardware).1
      ∧ (Write28 (counted bus) master sectorNum data n c).2.hardware
        = (Write28 bus master sectorNum data n c.hardware).2 := by
  unfold Write28
  split
  · exact ⟨rfl, rfl⟩
  · split
    · exact ⟨rfl, rfl⟩
    · rw [counted_issue, counted_writeTexts]
      dsimp only
      rw [counted_writeRest]
      exact ⟨rfl, rfl⟩

/-- How often a call of `Write28` writes the data port. -/
def writes28 (c : σ) : Nat := (Write28 (counted bus) master sectorNum data n ⟨c, 0, 0⟩).2.writes

/-- `Write28` transfers a whole sector whenever it gives the command. -/
theorem writes28_eq {c : σ} (hs : sectorNum ≤ 0x0FFFFFFF) (hn : n ≤ 512) :
    writes28 bus master sectorNum data n c = 256 := by
  unfold writes28 Write28
  rw [if_neg (UInt32.not_lt.mpr hs), if_neg (Nat.not_lt.mpr hn), counted_issue, counted_writeTexts]
  simp only
  rw [counted_writeRest]
  show 0 + turns 0 n + turns (n + n % 2) 512 = 256
  unfold turns
  omega

/-! ## §4. One sector. -/

/-- **Both functions transfer a whole sector** exactly when `Read28` is asked for no less than 0 and
    no more than 512 bytes. -/
theorem wholeSector_iff {c : σ} (hs : sectorNum ≤ 0x0FFFFFFF)
    (hready : Ready bus master sectorNum fuel 0x20 c) (hn : n ≤ 512) :
    (reads28 bus master sectorNum fuel count c = 256 ∧ writes28 bus master sectorNum data n c = 256)
      ↔ 0 ≤ count ∧ count ≤ 512 := by
  rw [reads28_turns bus master sectorNum fuel count hs hready, turns_eq_iff,
    writes28_eq bus master sectorNum data n hs hn]
  exact and_iff_left rfl

/-- A channel whose drives are ready at once. -/
def readyChannel : Channel where
  sectorCount := 0
  low := 0
  mid := 0
  high := 0
  device := 0
  transfer := .idle
  busy := 0
  latency := 0
  fault := false
  drives _ _ := []

theorem readyChannel_ready : Ready channel true 0 1 0x20 readyChannel :=
  ⟨0x58, _, rfl, by decide⟩

/-- Seven bytes of sector 0. -/
theorem wholeSector_iff_seven : (reads28 channel true 0 1 7 readyChannel = 256
      ∧ writes28 channel true 0 (fun _ => 1) 7 readyChannel = 256)
    ↔ (0 : Int) ≤ 7 ∧ (7 : Int) ≤ 512 :=
  wholeSector_iff channel true 0 1 7 (fun _ => 1) 7 (by decide) readyChannel_ready (by decide)

/-- `Read28(0, 514)` reads one word too many. -/
theorem long_read : ¬ ∀ (master : Bool) (sectorNum : UInt32) (fuel : Nat) (count : Int) (c : Channel),
    sectorNum ≤ 0x0FFFFFFF → Ready channel master sectorNum fuel 0x20 c →
      reads28 channel master sectorNum fuel count c = 256 := by
  intro hclaim
  have hread := hclaim true 0 1 514 readyChannel (by decide) readyChannel_ready
  rw [reads28_turns channel true 0 1 514 (by decide) readyChannel_ready] at hread
  exact absurd hread (by decide)

end SystemOS.Drivers.SectorTransfer
