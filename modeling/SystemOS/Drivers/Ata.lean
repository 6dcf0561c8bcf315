/-
  SystemOS.Drivers.Ata — reading and writing one sector of an ATA drive by programmed I/O.

  `Read28` and `Write28` carry the names of the C++ functions they translate.  They only touch the
  hardware through ports, so they are written over any `Bus`; §3 is the bus of a channel with two
  drives whose sectors are selected by the latched address registers.
-/
import Mathlib.Data.List.Basic
import Mathlib.Logic.Function.Basic

namespace SystemOS.Drivers.Ata

/-! ## §1. Ports. -/

inductive Port
  | dataPort | errorPort | sectorCountPort | lbaLowPort | lbaMidPort | lbaHiPort | devicePort
  | commandPort | controlPort
  deriving DecidableEq, Repr

/-- What a driver can do with the hardware behind its ports. -/
structure Bus (σ : Type) where
  outb : σ → Port → UInt8 → σ
  inb : σ → Port → UInt8 × σ
  outw : σ → Port → UInt16 → σ
  inw : σ → Port → UInt16 × σ

variable {σ : Type}

/-! ## §2. The driver. -/

/-- How a command of the driver ends; a text is a pair of characters that is printed. -/
inductive Outcome
  | refused | timeout | error
  | done (texts : List (UInt8 × UInt8))
  deriving DecidableEq, Repr

/-- The writes to the address registers and the command `cmd`, as both functions make them. -/
def issue (bus : Bus σ) (master : Bool) (sectorNum : UInt32) (cmd : UInt8) (c : σ) : σ :=
  let c := bus.outb c .devicePort
    ((if master then (0xE0 : UInt8) else 0xF0) ||| ((sectorNum &&& 0x0F000000) >>> 24).toUInt8)
  let c := bus.outb c .errorPort 0
  let c := bus.outb c .sectorCountPort 1
  let c := bus.outb c .lbaLowPort (sectorNum &&& 0x000000FF).toUInt8
  let c := bus.outb c .lbaMidPort ((sectorNum &&& 0x0000FF00) >>> 8).toUInt8
  let c := bus.outb c .lbaLowPort ((sectorNum &&& 0x00FF0000) >>> 16).toUInt8
  bus.outb c .commandPort cmd

/-- The loop on the status register, for at most `fuel` reads. -/
def poll (bus : Bus σ) : Nat → σ → Option UInt8 × σ
  | 0, c => (none, c)
  | fuel + 1, c =>
    let (status, c) := bus.inb c .commandPort
    if status &&& 0x80 = 0x80 ∧ status &&& 0x01 ≠ 0x01 then poll bus fuel c
    else (some status, c)

/-- The number of turns of `for(int i = from; i < to; i += 2)`. -/
def turns (start stop : Int) : Nat := ((stop - start + 1) / 2).toNat

/-- The loop of `Read28` that prints what it reads. -/
def readTexts (bus : Bus σ) (count : Int) : Nat → Int → σ → List (UInt8 × UInt8) × σ
  | 0, _, c => ([], c)
  | n + 1, i, c =>
    let (wdata, c) := bus.inw c .dataPort
    let text := ((wdata &&& 0xFF).toUInt8,
      if i + 1 < count then ((wdata >>> 8) &&& 0xFF).toUInt8 else 0)
    let (texts, c) := readTexts bus count n (i + 2) c
    (text :: texts, c)

/-- The loop of `Read28` that reads the rest of the sector. -/
def readRest (bus : Bus σ) : Nat → σ → σ
  | 0, c => c
  | n + 1, c => readRest bus n (bus.inw c .dataPort).2

def Read28 (bus : Bus σ) (fuel : Nat) (master : Bool) (sectorNum : UInt32) (count : Int) (c : σ) :
    Outcome × σ :=
  if sectorNum > 0x0FFFFFFF then (.refused, c)
  else
    match poll bus fuel (issue bus master sectorNum 0x20 c) with
    | (none, c) => (.timeout, c)
    | (some status, c) =>
      if status &&& 0x01 ≠ 0 then (.error, c)
      else
        let (texts, c) := readTexts bus count (turns 0 count) 0 c
        (.done texts, readRest bus (turns (count + count.tmod 2) 512) c)

/-- The word that `Write28` makes of `data[i]` and `data[i + 1]`. -/
def wdata (data : Nat → UInt8) (count i : Nat) : UInt16 :=
  if i + 1 < count then (data i).toUInt16 ||| ((data (i + 1)).toUInt16 <<< 8)
  else (data i).toUInt16

/-- The loop of `Write28` over the data. -/
def writeTexts (bus : Bus σ) (data : Nat → UInt8) (count : Nat) :
    Nat → Nat → σ → List (UInt8 × UInt8) × σ
  | 0, _, c => ([], c)
  | n + 1, i, c =>
    let w := wdata data count i
    let c := bus.outw c .dataPort w
    let (texts, c) := writeTexts bus data count n (i + 2) c
    ((((w >>> 8) &&& 0xFF).toUInt8, (w &&& 0xFF).toUInt8) :: texts, c)

/-- The loop of `Write28` that fills the sector up. -/
def writeRest (bus : Bus σ) : Nat → σ → σ
  | 0, c => c
  | n + 1, c => writeRest bus n (bus.outw c .dataPort 0x0000)

def Write28 (bus : Bus σ) (master : Bool) (sectorNum : UInt32) (data : Nat → UInt8) (count : Nat)
    (c : σ) : Outcome × σ :=
  if sectorNum > 0x0FFFFFFF then (.refused, c)
  else if count > 512 then (.refused, c)
  else
    let (texts, c) := writeTexts bus data count (turns 0 count) 0 (issue bus master sectorNum 0x30 c)
    (.done texts, writeRest bus (turns (count + count % 2) 512) c)

/-! ## §3. A channel with two drives. -/

/-- What the drive is doing with the data port. -/
inductive Transfer
  | idle
  | reading (rest : List UInt16)
  | writing (slave : Bool) (lba : Nat) (words : List UInt16)

/-- The registers of the channel and the sectors of its drives; a command keeps the drive busy for
    `latency` reads of the status register, and a faulty drive reports an error. -/
structure Channel where
  sectorCount : UInt8
  low : UInt8
  mid : UInt8
  high : UInt8
  device : UInt8
  transfer : Transfer
  busy : Nat
  latency : Nat
  fault : Bool
  drives : Bool → Nat → List UInt16

namespace Channel

/-- The sector that the latched registers decode to. -/
def lba (c : Channel) : Nat :=
  c.low.toNat + 256 * c.mid.toNat + 65536 * c.high.toNat + 16777216 * (c.device.toNat % 16)

/-- The drive that the device register selects. -/
def slave (c : Channel) : Bool := c.device &&& 0x10 ≠ 0

/-- Both commands transfer one sector. -/
def command (c : Channel) (cmd : UInt8) : Channel :=
  if cmd = 0x20 then
    { c with busy := c.latency, transfer := .reading (c.drives c.slave c.lba) }
  else if cmd = 0x30 then { c with busy := c.latency, transfer := .writing c.slave c.lba [] }
  else c

def outb (c : Channel) : Port → UInt8 → Channel
  | .sectorCountPort, v => { c with sectorCount := v }
  | .lbaLowPort, v => { c with low := v }
  | .lbaMidPort, v => { c with mid := v }
  | .lbaHiPort, v => { c with high := v }
  | .devicePort, v => { c with device := v }
  | .commandPort, v => c.command v
  | _, _ => c

/-- The status register; the other ports are not read by bytes. -/
def inb (c : Channel) : Port → UInt8 × Channel
  | .commandPort =>
    match c.busy with
    | n + 1 => (0x80, { c with busy := n })
    | 0 => (if c.fault then 0x51 else 0x58, c)
  | _ => (0xFF, c)

/-- A word from the driver; the last one of a sector stores it. -/
def outw (c : Channel) : Port → UInt16 → Channel
  | .dataPort, v =>
    match c.transfer with
    | .writing slave lba words =>
      let words := words ++ [v]
      if words.length = 256 then
        { c with
          transfer := .idle
          drives := Function.update c.drives slave (Function.update (c.drives slave) lba words) }
      else { c with transfer := .writing slave lba words }
    | _ => c
  | _, _ => c

/-- A word for the driver; the data port floats when there is none. -/
def inw (c : Channel) : Port → UInt16 × Channel
  | .dataPort =>
    match c.transfer with
    | .reading (w :: rest) => (w, { c with transfer := .reading rest })
    | _ => (0xFFFF, c)
  | _ => (0xFFFF, c)

end Channel

/-- The channel behind the ports of the driver. -/
def channel : Bus Channel := ⟨Channel.outb, Channel.inb, Channel.outw, Channel.inw⟩

end SystemOS.Drivers.Ata
