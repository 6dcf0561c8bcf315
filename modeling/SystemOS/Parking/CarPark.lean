/-
  SystemOS.Parking.CarPark — the temporary parking lots and their threads.

  `carOwner` and `carAttendant` have the same body for pickups and for automobiles, over a counter,
  a mutex and two semaphores of that type: a `Lot` is one such set with the owners and the valet
  that use it.  Between two program points of a thread one access to what the threads share is
  made.  The messages, and the sleeps that only take time, are left out.
-/
import Mathlib.Logic.Function.Basic
import SystemOS.Lib.Transition

namespace SystemOS.Parking.CarPark

open SystemOS.Lib.Transition

/-! ## §1. The threads. -/

inductive Vehicle
  | pickup
  | automobile
  deriving DecidableEq

def MAX_PICKUPS : Nat := 4
def MAX_AUTOMOBILES : Nat := 8

/-- What the counter starts from. -/
def capacity : Vehicle → Nat
  | .pickup => MAX_PICKUPS
  | .automobile => MAX_AUTOMOBILES

/-- The branch that an owner with this argument takes; `%` is that of C. -/
def ownerVehicle (vehicleType : Int) : Vehicle :=
  if vehicleType.tmod 2 = 0 then .pickup else .automobile

/-- The branch that a valet with this argument takes. -/
def attendantVehicle (vehicleType : Int) : Vehicle :=
  if vehicleType = 0 then .pickup else .automobile

/-- `pickupArg` and `automobileArg` of `main`: one valet is created with each. -/
def attendantArgs : List Int := [0, 1]

/-- Where an owner is; from `locked` to `parked`, and in `leaving`, it holds the mutex. -/
inductive Owner
  | arriving
  | locked
  | parking
  | parked
  | posting
  | waiting
  | leaving
  | left
  | returned
  deriving DecidableEq

/-- Where a valet is; in `taking` and `taken` it holds the mutex. -/
inductive Attendant
  | waiting
  | locking
  | taking
  | taken
  | posting
  deriving DecidableEq

/-- A thread of one vehicle type. -/
inductive Thread
  | owner (i : Nat)
  | attendant
  deriving DecidableEq

/-! ## §2. One vehicle type. -/

/-- What the threads of one vehicle type share, and where they are; `mtxFree` is the holder. -/
structure Lot where
  mFree : Int
  mtxFree : Option Thread
  newVehicle : Nat
  inCharge : Nat
  owners : List Owner
  attendant : Attendant

namespace Lot

/-- The lot that `main` sets up, before any owner. -/
def start (v : Vehicle) : Lot where
  mFree := capacity v
  mtxFree := none
  newVehicle := 0
  inCharge := 0
  owners := []
  attendant := .waiting

/-- A new owner thread. -/
def arrive (l : Lot) : Lot := { l with owners := l.owners ++ [.arriving] }

/-- Move owner `i` to a program point. -/
def goto (l : Lot) (i : Nat) (o : Owner) : Lot := { l with owners := l.owners.set i o }

/-- One access of `carOwner` in thread `i`, unless it has to wait. -/
def carOwner (l : Lot) (i : Nat) : Owner → Option Lot
  | .arriving =>
    if l.mtxFree = none then some ({ l with mtxFree := some (.owner i) }.goto i .locked) else none
  | .locked => some (l.goto i (if l.mFree > 0 then .parking else .leaving))
  | .parking => some ({ l with mFree := l.mFree - 1 }.goto i .parked)
  | .parked => some ({ l with mtxFree := none }.goto i .posting)
  | .posting => some ({ l with newVehicle := l.newVehicle + 1 }.goto i .waiting)
  | .waiting =>
    if 0 < l.inCharge then some ({ l with inCharge := l.inCharge - 1 }.goto i .returned) else none
  | .leaving => some ({ l with mtxFree := none }.goto i .left)
  | .left => none
  | .returned => none

/-- One access of `carAttendant`, unless it has to wait. -/
def carAttendant (l : Lot) : Attendant → Option Lot
  | .waiting =>
    if 0 < l.newVehicle then some { l with newVehicle := l.newVehicle - 1, attendant := .locking }
    else none
  | .locking =>
    if l.mtxFree = none then some { l with mtxFree := some .attendant, attendant := .taking }
    else none
  | .taking => some { l with mFree := l.mFree + 1, attendant := .taken }
  | .taken => some { l with mtxFree := none, attendant := .posting }
  | .posting => some { l with inCharge := l.inCharge + 1, attendant := .waiting }

end Lot

/-! ## §3. The whole program. -/

/-- The lots of both vehicle types. -/
abbrev State := Vehicle → Lot

/-- An owner is created with its argument, owner `i` of a vehicle type makes an access, or the valet
with an argument does. -/
inductive Event
  | arrive (vehicleType : Int)
  | owner (v : Vehicle) (i : Nat)
  | attendant (vehicleType : Int)

inductive Step : State → Event → State → Prop
  | arrive {s : State} {vehicleType : Int} : Step s (.arrive vehicleType)
      (Function.update s (ownerVehicle vehicleType) (s (ownerVehicle vehicleType)).arrive)
  | owner {s : State} {v : Vehicle} {i : Nat} {o : Owner} {l : Lot} : (s v).owners[i]? = some o →
      (s v).carOwner i o = some l → Step s (.owner v i) (Function.update s v l)
  | attendant {s : State} {vehicleType : Int} {l : Lot} : vehicleType ∈ attendantArgs →
      (s (attendantVehicle vehicleType)).carAttendant (s (attendantVehicle vehicleType)).attendant
        = some l →
      Step s (.attendant vehicleType) (Function.update s (attendantVehicle vehicleType) l)

/-- `main` starts with empty lots; then owners of any type arrive at any time. -/
def system : System State Event where
  init s := s = Lot.start
  step := Step

/-- An owner is created, or one that has yet to reach the lot makes its first access. -/
def Arrival (s : State) : Event → Prop
  | .arrive _ => True
  | .owner v i => (s v).owners[i]? = some .arriving
  | .attendant _ => False

/-- No thread can step except arriving owners. -/
def Quiet (s : State) : Prop := ∀ e s', Step s e s' → Arrival s e

end SystemOS.Parking.CarPark
