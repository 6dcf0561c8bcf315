/-
  SystemOS.Drivers.Addressing — which sector `Read28` and `Write28` address.

  Main results:
    * `issue_lba`         — the registers that both functions latch, as one number: the third
      address byte goes to the low register again, and the high register keeps what it held.
    * `Write28_stores`    — a write stores the data at that number and nowhere else.
    * `Read28_transfers`  — a read transfers the sector at that number.
    * `addresses_iff`     — write and read go to the sector they are given exactly when its bits
      0..7, its bits 16..23 and the high register agree.
-/
import SystemOS.Lib.Words
import SystemOS.Drivers.Ata

namespace SystemOS.Drivers.Addressing

open SystemOS.Lib.Words SystemOS.Drivers.Ata

/-! ## §1. The registers. -/

theorem bits8to15 (s : UInt32) :
    ((s &&& 0x0000FF00) >>> 8).toUInt8.toNat = s.toNat / 256 % 256 := by
  have h := mask_shift s.toNat 8 8
  simp at h ⊢
  omega

theorem bits16to23 (s : UInt32) :
    ((s &&& 0x00FF0000) >>> 16).toUInt8.toNat = s.toNat / 65536 % 256 := by
  have h := mask_shift s.toNat 8 16
  simp at h ⊢
  omega

theorem bits24to27 (s : UInt32) :
    ((s &&& 0x0F000000) >>> 24).toUInt8.toNat = s.toNat / 16777216 % 16 := by
  have h := mask_shift s.toNat 4 24
  simp at h ⊢
  omega

/-- The device register as both functions write it. -/
def device (master : Bool) (s : UInt32) : UInt8 :=
  (if master then (0xE0 : UInt8) else 0xF0) ||| ((s &&& 0x0F000000) >>> 24).toUInt8

theorem device_low (master : Bool) (s : UInt32) :
    (device master s).toNat % 16 = s.toNat / 16777216 % 16 := by
  -- The two selectors have nothing in the low nibble.
  have hbits : ∀ n < 16, ∀ b : Bool,
      ((if b then (0xE0 : UInt8) else 0xF0).toNat ||| n) % 16 = n := by decide
  unfold device
  rw [UInt8.toNat_or, ← bits24to27 s]
  exact hbits _ (by rw [bits24to27]; omega) master

theorem device_slave (master : Bool) (s : UInt32) :
    decide (device master s &&& 0x10 ≠ 0) = !master := by
  have hbits : ∀ n < 16, ∀ b : Bool,
      (((if b then (0xE0 : UInt8) else 0xF0).toNat ||| n) &&& 16 = 0) ↔ b = true := by decide
  have hsel := hbits _ (show ((s &&& 0x0F000000) >>> 24).toUInt8.toNat < 16 by
    rw [bits24to27]; omega) master
  rw [← UInt8.toNat_or] at hsel
  have hzero : device master s &&& 0x10 = 0 ↔ master = true := by
    rw [← hsel, ← UInt8.toNat_inj, UInt8.toNat_and]
    rfl
  cases master with
  | true => simp [hzero.mpr rfl]
  | false =>
    have hne : device false s &&& 0x10 ≠ 0 := fun h => by simpa using hzero.mp h
    simp [hne]

/-- The number that the registers decode to after the address of `s` was written over `high`. -/
def addressed (high : UInt8) (s : UInt32) : Nat :=
  s.toNat / 65536 % 256 + 256 * (s.toNat / 256 % 256) + 65536 * high.toNat
    + 16777216 * (s.toNat / 16777216 % 16)

/-- The channel when the registers have been written and no command given yet. -/
def latched (c : Channel) (master : Bool) (s : UInt32) : Channel :=
  { c with
    sectorCount := 1
    low := ((s &&& 0x00FF0000) >>> 16).toUInt8
    mid := ((s &&& 0x0000FF00) >>> 8).toUInt8
    device := device master s }

theorem issue_eq (c : Channel) (master : Bool) (s : UInt32) (cmd : UInt8) :
    issue channel master s cmd c = (latched c master s).command cmd := rfl

theorem latched_lba (c : Channel) (master : Bool) (s : UInt32) :
    (latched c master s).lba = addressed c.high s := by
  show _ + 256 * _ + _ + 16777216 * ((device master s).toNat % 16) = _
  rw [device_low]
  unfold latched addressed
  simp only [bits16to23, bits8to15]

theorem latched_slave (c : Channel) (master : Bool) (s : UInt32) :
    (latched c master s).slave = !master := device_slave master s

/-- **The address that both functions latch.** -/
theorem issue_lba (c : Channel) (master : Bool) (s : UInt32) {cmd : UInt8}
    (hcmd : cmd = 0x20 ∨ cmd = 0x30) :
    (issue channel master s cmd c).lba = addressed c.high s
      ∧ (issue channel master s cmd c).slave = !master := by
  rw [issue_eq]
  rcases hcmd with rfl | rfl
  · exact ⟨latched_lba c master s, latched_slave c master s⟩
  · exact ⟨latched_lba c master s, latched_slave c master s⟩

/-- A 28-bit number is the sum of its three bytes and its top nibble. -/
theorem digits {n : Nat} (h : n ≤ 0x0FFFFFFF) :
    n % 256 + 256 * (n / 256 % 256) + 65536 * (n / 65536 % 256)
      + 16777216 * (n / 16777216 % 16) = n := by
  omega

/-- A sector number comes out as it went in exactly when three bytes agree. -/
theorem addressed_eq_iff {high : UInt8} {s : UInt32} (hs : s ≤ 0x0FFFFFFF) :
    addressed high s = s.toNat
      ↔ s.toNat % 256 = s.toNat / 65536 % 256 ∧ high.toNat = s.toNat / 65536 % 256 := by
  have hsum := digits (show s.toNat ≤ 0x0FFFFFFF from hs)
  have h0 : s.toNat % 256 < 256 := Nat.mod_lt _ (by decide)
  have h2 : s.toNat / 65536 % 256 < 256 := Nat.mod_lt _ (by decide)
  have hhigh := high.toNat_lt
  unfold addressed
  -- compare the two sums digit by digit
  generalize s.toNat % 256 = b0 at *
  generalize s.toNat / 65536 % 256 = b2 at *
  omega

/-! ## §2. A write. -/

/-- The words that `Write28` makes of the data in `n` turns from byte `i` on. -/
def dataWords (data : Nat → UInt8) (count : Nat) : Nat → Nat → List UInt16
  | 0, _ => []
  | n + 1, i => wdata data count i :: dataWords data count n (i + 2)

/-- The words of the sector that `Write28` sends. -/
def block (data : Nat → UInt8) (count : Nat) : List UInt16 :=
  dataWords data count (turns 0 count) 0 ++ List.replicate (turns (count + count % 2) 512) 0

theorem turns_eq {a b : Int} {m n : Nat} (ha : a = m) (hb : b = n) (h : m ≤ n + 1) :
    turns a b = (n + 1 - m) / 2 := by
  unfold turns
  omega

theorem dataWords_length (data : Nat → UInt8) (count : Nat) :
    ∀ n i, (dataWords data count n i).length = n
  | 0, _ => rfl
  | n + 1, i => congrArg (· + 1) (dataWords_length data count n (i + 2))

/-- Both loops together send one sector. -/
theorem block_length (data : Nat → UInt8) {count : Nat} (h : count ≤ 512) :
    (block data count).length = 256 := by
  have hdata : turns 0 count = (count + 1 - 0) / 2 := turns_eq rfl rfl (Nat.zero_le _)
  have hrest : turns (count + count % 2) 512 = (512 + 1 - (count + count % 2)) / 2 :=
    turns_eq (by omega) rfl (by omega)
  unfold block
  rw [List.length_append, dataWords_length, List.length_replicate, hdata, hrest]
  omega

/-- The channel after a list of words to the data port. -/
def send (c : Channel) (ws : List UInt16) : Channel :=
  ws.foldl (fun c w => c.outw .dataPort w) c

theorem writeTexts_send (data : Nat → UInt8) (count : Nat) (n i : Nat) (c : Channel) :
    (writeTexts channel data count n i c).2 = send c (dataWords data count n i) := by
  induction n generalizing i c with
  | zero => rfl
  | succ n ih => exact ih (i + 2) _

theorem writeRest_send (n : Nat) (c : Channel) :
    writeRest channel n c = send c (List.replicate n 0) := by
  induction n generalizing c with
  | zero => rfl
  | succ n ih => exact ih _

/-- The words that complete a sector store it. -/
theorem send_stores {c : Channel} {slave : Bool} {lba : Nat} (ws : List UInt16) :
    ∀ words, c.transfer = .writing slave lba words → words.length + ws.length = 256 → ws ≠ [] →
      send c ws = { c with
        transfer := .idle
        drives := Function.update c.drives slave
          (Function.update (c.drives slave) lba (words ++ ws)) } := by
  induction ws generalizing c with
  | nil => exact fun words _ _ hne => absurd rfl hne
  | cons w ws ih =>
    intro words htr hlen _
    show send (c.outw .dataPort w) ws = _
    simp only [Channel.outw, htr]
    rw [List.length_cons] at hlen
    cases ws with
    | nil =>
      -- the last word
      rw [if_pos (by simpa using hlen)]
      rfl
    | cons w' ws =>
      rw [List.length_cons] at hlen
      rw [if_neg (by rw [List.length_append, List.length_singleton]; omega)]
      have hrest := @ih { c with transfer := .writing slave lba (words ++ [w]) } (words ++ [w]) rfl
        (by rw [List.length_append, List.length_singleton, List.length_cons]; omega)
        (List.cons_ne_nil _ _)
      rw [hrest, List.append_assoc]
      rfl

/-- **A write stores one sector**, at the number the registers decode to. -/
theorem Write28_stores (c : Channel) (master : Bool) {s : UInt32} (hs : s ≤ 0x0FFFFFFF)
    (data : Nat → UInt8) {count : Nat} (hcount : count ≤ 512) :
    (Write28 channel master s data count c).2 = { latched c master s with
      busy := c.latency
      transfer := .idle
      drives := Function.update c.drives (!master)
        (Function.update (c.drives (!master)) (addressed c.high s) (block data count)) } := by
  have hlen := block_length data hcount
  unfold Write28
  rw [if_neg (by exact UInt32.not_lt.mpr hs), if_neg (by omega)]
  simp only
  rw [writeTexts_send, writeRest_send, issue_eq]
  show send (send _ _) _ = _
  -- The two loops send one list of words, which is as long as a sector.
  have hsend : ∀ (c : Channel) ws ws', send (send c ws) ws' = send c (ws ++ ws') :=
    fun c ws ws' => (List.foldl_append ..).symm
  rw [hsend]
  show send { latched c master s with
    busy := c.latency, transfer := .writing (latched c master s).slave (latched c master s).lba [] }
    (block data count) = _
  rw [send_stores (block data count) [] rfl (by rw [List.length_nil, hlen])
    (fun h => by rw [h] at hlen; simp at hlen)]
  rw [latched_slave, latched_lba]
  rfl

/-! ## §3. A read. -/

/-- The texts that `Read28` makes of the words of a sector, from byte `i` on. -/
def textsOf (count : Int) : Int → List UInt16 → List (UInt8 × UInt8)
  | _, [] => []
  | i, w :: ws =>
    ((w &&& 0xFF).toUInt8, if i + 1 < count then ((w >>> 8) &&& 0xFF).toUInt8 else 0)
      :: textsOf count (i + 2) ws

/-- The bytes of the sector that the texts of a read of `count` bytes carry. -/
def transferred (count : Nat) (texts : List (UInt8 × UInt8)) : List UInt8 :=
  (texts.flatMap fun text => [text.1, text.2]).take count

theorem readTexts_reading (count : Int) (n : Nat) :
    ∀ (i : Int) {c : Channel} {ws : List UInt16}, c.transfer = .reading ws → n ≤ ws.length →
      readTexts channel count n i c
        = (textsOf count i (ws.take n), { c with transfer := .reading (ws.drop n) }) := by
  induction n with
  | zero =>
    intro i c ws htr _
    rw [List.take_zero, List.drop_zero, ← htr]
    rfl
  | succ n ih =>
    intro i c ws htr hlen
    cases ws with
    | nil => exact absurd hlen (Nat.not_succ_le_zero n)
    | cons w ws =>
      -- Each read of the data port takes the next word of the sector.
      have hin : c.inw .dataPort = (w, { c with transfer := .reading ws }) := by
        simp only [Channel.inw, htr]
      unfold readTexts
      simp only [channel, hin]
      have hrest := @ih (i + 2) { c with transfer := .reading ws } ws rfl (Nat.le_of_succ_le_succ hlen)
      simp only [channel] at hrest
      rw [hrest]
      rfl

theorem readRest_reading (n : Nat) {c : Channel} {ws : List UInt16}
    (htr : c.transfer = .reading ws) (hlen : n ≤ ws.length) :
    readRest channel n c = { c with transfer := .reading (ws.drop n) } := by
  induction n generalizing c ws with
  | zero =>
    rw [List.drop_zero, ← htr]
    rfl
  | succ n ih =>
    cases ws with
    | nil => exact absurd hlen (Nat.not_succ_le_zero n)
    | cons w ws =>
      have hin : (channel.inw c .dataPort).2 = { c with transfer := .reading ws } := by
        simp only [channel, Channel.inw, htr]
      unfold readRest
      rw [hin, ih rfl (Nat.le_of_succ_le_succ hlen)]
      rfl

/-- A drive without faults gets ready. -/
theorem poll_ready {c : Channel} (hok : c.fault = false) {fuel : Nat} (hfuel : c.busy < fuel) :
    poll channel fuel c = (some 0x58, { c with busy := 0 }) := by
  induction fuel generalizing c with
  | zero => exact absurd hfuel (Nat.not_lt_zero _)
  | succ fuel ih =>
    obtain ⟨n, hn⟩ : ∃ n, c.busy = n := ⟨_, rfl⟩
    unfold poll
    cases n with
    | zero =>
      -- Ready, with data to transfer.
      have hin : channel.inb c .commandPort = (0x58, c) := by
        simp [channel, Channel.inb, hn, hok]
      rw [hin]
      simp only
      rw [if_neg (by decide), ← hn]
    | succ n =>
      -- Busy once more.
      have hin : channel.inb c .commandPort = (0x80, { c with busy := n }) := by
        simp [channel, Channel.inb, hn]
      rw [hin]
      simp only
      rw [if_pos (by decide), ih (by exact hok) (by show n < fuel; omega)]

/-- **A read transfers one sector**, the one the registers decode to. -/
theorem Read28_transfers {c : Channel} (hok : c.fault = false) (master : Bool) {s : UInt32}
    (hs : s ≤ 0x0FFFFFFF) {count : Nat} (hcount : count ≤ 512) {fuel : Nat}
    (hfuel : c.latency < fuel)
    (hsector : (c.drives (!master) (addressed c.high s)).length = 256) :
    Read28 channel fuel master s count c
      = (.done (textsOf count 0
            ((c.drives (!master) (addressed c.high s)).take ((count + 1) / 2))),
          { latched c master s with busy := 0, transfer := .reading [] }) := by
  have hdata : turns 0 count = (count + 1 - 0) / 2 := turns_eq rfl rfl (Nat.zero_le _)
  have hrest : turns (count + (count : Int).tmod 2) 512 = (512 + 1 - (count + count % 2)) / 2 :=
    turns_eq (by rw [show ((2 : Int)) = ((2 : Nat) : Int) from rfl, ← Int.ofNat_tmod]; omega) rfl
      (by omega)
  generalize hws : c.drives (!master) (addressed c.high s) = ws at *
  unfold Read28
  rw [if_neg (by exact UInt32.not_lt.mpr hs), issue_eq]
  -- The command fetches the sector that the registers decode to.
  have hcommand : (latched c master s).command 0x20
      = { latched c master s with busy := c.latency, transfer := .reading ws } := by
    rw [← hws, ← latched_lba c master s, ← latched_slave c master s]
    rfl
  rw [hcommand, poll_ready (c := { latched c master s with busy := c.latency, transfer := _ })
    hok hfuel]
  simp only
  rw [if_neg (by decide), hdata, hrest, readTexts_reading _ _ _ rfl (by omega)]
  simp only
  -- The second loop takes what the first has left of the sector.
  have hdrop : (ws.drop ((count + 1 - 0) / 2)).drop ((512 + 1 - (count + count % 2)) / 2) = [] := by
    rw [List.drop_drop]
    exact List.drop_of_length_le (by omega)
  rw [readRest_reading _ rfl (by rw [List.length_drop]; omega), hdrop]
  rfl

/-! ## §4. Both together. -/

/-- Reading back what `n` turns of `Write28` made of the data. -/
theorem transferred_dataWords (data : Nat → UInt8) (count : Nat) :
    ∀ n i, i ≤ count + 1 → n = (count + 1 - i) / 2 →
      ((textsOf count i (dataWords data count n i)).flatMap fun text => [text.1, text.2]).take
          (count - i) = (List.range' i (count - i)).map data
  | 0, i, hi, hn => by
      rw [show count - i = 0 by omega]
      rfl
  | n + 1, i, hi, hn => by
      have ih := transferred_dataWords data count n (i + 2) (by omega) (by omega)
      unfold dataWords textsOf
      have hcast : ((i : Int) + 2) = ((i + 2 : Nat) : Int) := by omega
      rw [hcast, List.flatMap_cons]
      by_cases hlast : i + 1 < count
      · -- a full word
        rw [if_pos (by omega), show count - i = (count - (i + 2)) + 1 + 1 by omega,
          List.range'_succ, List.range'_succ, List.map_cons, List.map_cons, ← ih]
        unfold wdata
        rw [if_pos hlast, lowByte_word, highByte_word]
        rfl
      · -- the last byte of an odd count
        rw [if_neg (by omega), show count - i = 1 by omega]
        unfold wdata
        rw [if_neg hlast, lowByte_byte]
        rfl

theorem transferred_block (data : Nat → UInt8) (count : Nat) :
    transferred count (textsOf count 0 ((block data count).take ((count + 1) / 2)))
      = (List.range count).map data := by
  have hdata : turns 0 count = (count + 1 - 0) / 2 := turns_eq rfl rfl (Nat.zero_le _)
  have hback := transferred_dataWords data count ((count + 1 - 0) / 2) 0 (Nat.zero_le _) rfl
  unfold block transferred
  have hlength := dataWords_length data count ((count + 1) / 2) 0
  rw [hdata, Nat.sub_zero, List.take_left' hlength, List.range_eq_range']
  exact hback

/-- What the addressing of one sector promises of a write of `count` bytes to `s` and a read that
    follows: both latch `s`, the write stores the data in sector `s` and in no other, and the read
    transfers it back. -/
def AddressesSector (c : Channel) (master : Bool) (s : UInt32) (data : Nat → UInt8) (count : Nat) :
    Prop :=
  let written := (Write28 channel master s data count c).2
  written.lba = s.toNat
    ∧ written.drives = Function.update c.drives (!master)
        (Function.update (c.drives (!master)) s.toNat (block data count))
    ∧ ∀ fuel, c.latency < fuel → ∃ texts,
        (Read28 channel fuel master s count written).1 = .done texts
          ∧ transferred count texts = (List.range count).map data
          ∧ (Read28 channel fuel master s count written).2.lba = s.toNat
          ∧ (Read28 channel fuel master s count written).2.drives = written.drives

/-- **Addressing.**  On a drive without faults, a write of at most 512 bytes and the read that
    follows go to the sector they are given exactly when the bits 0..7 of its number, the bits
    16..23 and the high register agree. -/
theorem addresses_iff {c : Channel} (hok : c.fault = false) (master : Bool) {s : UInt32}
    (hs : s ≤ 0x0FFFFFFF) (data : Nat → UInt8) {count : Nat} (hcount : count ≤ 512) :
    AddressesSector c master s data count
      ↔ s.toNat % 256 = s.toNat / 65536 % 256 ∧ c.high.toNat = s.toNat / 65536 % 256 := by
  have hwrite := Write28_stores c master hs data hcount
  have hlatched : (Write28 channel master s data count c).2.lba = addressed c.high s := by
    rw [hwrite]
    exact latched_lba c master s
  rw [← addressed_eq_iff hs]
  constructor
  -- The number latched decides alone.
  · rintro ⟨hlba, -, -⟩
    rw [← hlatched, hlba]
  · intro heq
    refine ⟨hlatched.trans heq, by rw [hwrite, heq], fun fuel hfuel => ?_⟩
    -- `Write28` does not touch the high register, so the read latches the same number.
    have hhigh : (Write28 channel master s data count c).2.high = c.high := by
      rw [hwrite]
      rfl
    have hsector : (Write28 channel master s data count c).2.drives (!master)
        (addressed c.high s) = block data count := by
      rw [hwrite]
      simp only [Function.update_self]
    have hlatency : (Write28 channel master s data count c).2.latency < fuel := by
      rw [hwrite]
      exact hfuel
    have hread := Read28_transfers (c := (Write28 channel master s data count c).2)
      (by rw [hwrite]; exact hok) master hs hcount hlatency
      (by rw [hhigh, hsector, block_length data hcount])
    rw [hread, hhigh, hsector]
    have hlba := latched_lba (Write28 channel master s data count c).2 master s
    rw [hhigh, heq] at hlba
    exact ⟨_, rfl, transferred_block data count, hlba, rfl⟩

/-- A master drive behind cleared registers. -/
def cleared : Channel := ⟨0, 0, 0, 0, 0, .idle, 0, 0, false, fun _ _ => List.replicate 256 0⟩

theorem addresses_iff_cleared : AddressesSector cleared true 0x100 (fun _ => 7) 1
    ↔ (0x100 : UInt32).toNat % 256 = (0x100 : UInt32).toNat / 65536 % 256
      ∧ cleared.high.toNat = (0x100 : UInt32).toNat / 65536 % 256 :=
  addresses_iff rfl true (by decide) _ (by decide)

/-- A write to sector 1 of that drive goes to sector 0. -/
theorem sector_one_missed : ¬ ∀ (c : Channel) (master : Bool) (s : UInt32) (data : Nat → UInt8)
    (count : Nat), c.fault = false → s ≤ 0x0FFFFFFF → count ≤ 512 →
      AddressesSector c master s data count := by
  intro hclaim
  have hlba := (hclaim cleared true 1 (fun _ => 7) 1 rfl (by decide) (by decide)).1
  rw [Write28_stores cleared true (by decide) _ (by decide)] at hlba
  exact absurd ((latched_lba cleared true 1).symm.trans hlba) (by decide)

end SystemOS.Drivers.Addressing
