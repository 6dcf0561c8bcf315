/-
  SystemOS.Parking.Conservation — no spot is lost and no owner is left waiting.

  A spot of a lot is free, or held by an owner that has not yet posted, or counted by the semaphore
  of new vehicles, or in the hands of the valet on the way to the increment; and each owner that
  waits is owed one wake-up, which is on the same way or in the other semaphore.

  Main results:
    * `lot_invariant`  — both accounts, and who holds the mutex, in every reachable state.
    * `quiet_returned` — when only arriving owners can step, nothing is on the way.
    * `spots_conserved` — the law of the car park over every interleaving.
-/
import Mathlib.Data.List.Basic
import SystemOS.Parking.CarPark

namespace SystemOS.Parking.Conservation

open SystemOS.Lib.Transition SystemOS.Parking.CarPark

variable {l l' : Lot} {i : Nat} {o o' : Owner}

/-! ## §1. The mutex. -/

def holds : Owner → Bool
  | .locked | .parking | .parked | .leaving => true
  | _ => false

def attendantHolds : Attendant → Bool
  | .taking | .taken => true
  | _ => false

/-- The thread is between its lock and its unlock. -/
def inside (l : Lot) : Thread → Bool
  | .owner i => l.owners[i]?.any holds
  | .attendant => attendantHolds l.attendant

/-- The mutex is held by the thread that is inside, if there is one. -/
def Mutex (l : Lot) : Prop := ∀ t, inside l t = true ↔ l.mtxFree = some t

theorem Mutex.only (h : Mutex l) {t u : Thread} (ht : inside l t = true) (hu : inside l u = true) :
    t = u :=
  Option.some.inj (((h t).mp ht).symm.trans ((h u).mp hu))

theorem inside_owner (ho : l.owners[i]? = some o) : inside l (.owner i) = holds o := by
  rw [inside, ho]
  rfl

theorem getElem?_set_self (ho : l.owners[i]? = some o) : (l.owners.set i o')[i]? = some o' :=
  List.getElem?_set_self (List.getElem?_eq_some_iff.mp ho).1

/-- What one access of the thread `t` may do: take the mutex, give it back, or leave it. -/
inductive Access (l l' : Lot) (t : Thread) : Prop
  | takes : inside l' t = true → l.mtxFree = none → l'.mtxFree = some t → Access l l' t
  | gives : inside l' t = false → inside l t = true → l'.mtxFree = none → Access l l' t
  | leaves : inside l' t = inside l t → l'.mtxFree = l.mtxFree → Access l l' t

theorem Mutex.step (hm : Mutex l) {t : Thread} (ht : Access l l' t)
    (hothers : ∀ u, u ≠ t → inside l' u = inside l u) : Mutex l' := by
  intro u
  by_cases hut : u = t
  · subst hut
    cases ht with
    | takes hin _ hmtx => exact iff_of_true hin hmtx
    | gives hout _ hmtx =>
      rw [hout, hmtx]
      exact iff_of_false Bool.false_ne_true (Option.some_ne_none u ∘ Eq.symm)
    | leaves hsame hmtx =>
      rw [hsame, hmtx]
      exact hm u
  -- Another thread stays where it is; it is inside after the step only if the mutex was and is
  -- its own, and `t` can neither take nor give back a mutex that another one holds.
  · have hne : some t ≠ some u := fun h => hut (Option.some.inj h).symm
    rw [hothers u hut, hm u]
    cases ht with
    | takes _ hfree hmtx =>
      rw [hfree, hmtx]
      exact iff_of_false (Option.some_ne_none u ∘ Eq.symm) hne
    | gives _ hin hmtx =>
      rw [(hm t).mp hin, hmtx]
      exact iff_of_false hne (Option.some_ne_none u ∘ Eq.symm)
    | leaves _ hmtx => rw [hmtx]

/-- An owner moves to the point `o'`. -/
theorem Mutex.owner (hm : Mutex l) (ho : l.owners[i]? = some o) (o' : Owner)
    (howners : l'.owners = l.owners.set i o') (hvalet : l'.attendant = l.attendant)
    (h : holds o' = true ∧ l.mtxFree = none ∧ l'.mtxFree = some (.owner i)
      ∨ holds o' = false ∧ holds o = true ∧ l'.mtxFree = none
      ∨ holds o' = holds o ∧ l'.mtxFree = l.mtxFree) : Mutex l' := by
  have hold := inside_owner ho
  have hnew : inside l' (.owner i) = holds o' := by
    rw [inside, howners, getElem?_set_self ho]
    rfl
  refine hm.step (t := .owner i) ?_ ?_
  · rcases h with ⟨hin, hfree, hmtx⟩ | ⟨hout, hin, hmtx⟩ | ⟨hsame, hmtx⟩
    · exact .takes (hnew.trans hin) hfree hmtx
    · exact .gives (hnew.trans hout) (hold.trans hin) hmtx
    · exact .leaves (hnew.trans (hsame.trans hold.symm)) hmtx
  · intro u hu
    cases u with
    | owner j =>
      rw [inside, inside, howners, List.getElem?_set_ne fun h => hu (congrArg Thread.owner h.symm)]
    | attendant => rw [inside, inside, hvalet]

theorem owner_mutex (hm : Mutex l) (ho : l.owners[i]? = some o) (h : l.carOwner i o = some l') :
    Mutex l' := by
  cases o with
  | arriving =>
    rw [Lot.carOwner] at h
    split at h <;> cases h
    rename_i hfree
    exact hm.owner ho .locked rfl rfl (.inl ⟨rfl, hfree, rfl⟩)
  | locked =>
    cases h
    -- Inside on both sides of the test.
    refine hm.owner ho _ rfl rfl (.inr (.inr ⟨?_, rfl⟩))
    split <;> rfl
  | parking => cases h; exact hm.owner ho .parked rfl rfl (.inr (.inr ⟨rfl, rfl⟩))
  | parked => cases h; exact hm.owner ho .posting rfl rfl (.inr (.inl ⟨rfl, rfl, rfl⟩))
  | posting => cases h; exact hm.owner ho .waiting rfl rfl (.inr (.inr ⟨rfl, rfl⟩))
  | waiting =>
    rw [Lot.carOwner] at h
    split at h <;> cases h
    exact hm.owner ho .returned rfl rfl (.inr (.inr ⟨rfl, rfl⟩))
  | leaving => cases h; exact hm.owner ho .left rfl rfl (.inr (.inl ⟨rfl, rfl, rfl⟩))
  | left => cases h
  | returned => cases h

/-- The valet moves. -/
theorem Mutex.attendant (hm : Mutex l) (howners : l'.owners = l.owners)
    (h : Access l l' .attendant) : Mutex l' := by
  refine hm.step h fun u hu => ?_
  cases u with
  | owner j => rw [inside, inside, howners]
  | attendant => exact absurd rfl hu

theorem attendant_mutex (hm : Mutex l) {a : Attendant} (ha : l.attendant = a)
    (h : l.carAttendant a = some l') : Mutex l' := by
  have hold : inside l .attendant = attendantHolds a := congrArg attendantHolds ha
  cases a with
  | waiting =>
    rw [Lot.carAttendant] at h
    split at h <;> cases h
    exact hm.attendant rfl (.leaves hold.symm rfl)
  | locking =>
    rw [Lot.carAttendant] at h
    split at h <;> cases h
    rename_i hfree
    exact hm.attendant rfl (.takes rfl hfree rfl)
  | taking => cases h; exact hm.attendant rfl (.leaves hold.symm rfl)
  | taken => cases h; exact hm.attendant rfl (.gives rfl hold rfl)
  | posting => cases h; exact hm.attendant rfl (.leaves hold.symm rfl)

/-- A new owner is at no point where it matters. -/
theorem arrive_at (ho : l.arrive.owners[i]? = some o) :
    l.owners[i]? = some o ∨ o = .arriving := by
  rw [Lot.arrive, List.getElem?_append] at ho
  split at ho
  · exact .inl ho
  · obtain ⟨_, hget⟩ := List.getElem?_eq_some_iff.mp ho
    exact .inr (hget.symm.trans (List.getElem_singleton _))

theorem arrive_keeps (ho : l.owners[i]? = some o) : l.arrive.owners[i]? = some o := by
  rw [Lot.arrive, List.getElem?_append_left (List.getElem?_eq_some_iff.mp ho).1]
  exact ho

theorem arrive_mutex (hm : Mutex l) : Mutex l.arrive := by
  intro t
  refine Iff.trans ?_ (hm t)
  cases t with
  | owner i =>
    rw [inside, inside, Option.any_eq_true, Option.any_eq_true]
    constructor
    · rintro ⟨o, ho, hin⟩
      rcases arrive_at ho with ho | rfl
      · exact ⟨o, ho, hin⟩
      · cases hin
    · rintro ⟨o, ho, hin⟩
      exact ⟨o, arrive_keeps ho, hin⟩
  | attendant => rfl

/-! ## §2. What the counter tells the holder of the mutex. -/

/-- The test of an owner still holds when it acts on it. -/
structure Tested (l : Lot) : Prop where
  free : 0 ≤ l.mFree
  parking : ∀ i : Nat, l.owners[i]? = some .parking → 0 < l.mFree
  leaving : ∀ i : Nat, l.owners[i]? = some .leaving → l.mFree = 0

/-- The thread inside changes the counter: no other thread is past its test. -/
theorem Tested.changed (hm : Mutex l') (hfree : 0 ≤ l'.mFree) {t : Thread} (ht : inside l' t = true)
    (hself : ∀ i : Nat, t = .owner i → ∃ o, l'.owners[i]? = some o ∧ o ≠ .parking ∧ o ≠ .leaving) :
    Tested l' := by
  -- Past the test means inside, and `t` is the only thread there.
  have habsurd : ∀ i : Nat, l'.owners[i]? ≠ some .parking ∧ l'.owners[i]? ≠ some .leaving := by
    intro i
    by_cases hi : t = .owner i
    · obtain ⟨o, ho, hne, hne'⟩ := hself i hi
      rw [ho]
      exact ⟨fun h => hne (Option.some.inj h), fun h => hne' (Option.some.inj h)⟩
    · exact ⟨fun h => hi (hm.only ht (inside_owner h)), fun h => hi (hm.only ht (inside_owner h))⟩
  exact ⟨hfree, fun i h => absurd h (habsurd i).1, fun i h => absurd h (habsurd i).2⟩

/-- The counter stays and owner `i` moves. -/
theorem Tested.moved (h : Tested l) (ho : l.owners[i]? = some o) (hfree : l'.mFree = l.mFree)
    (howners : l'.owners = l.owners.set i o') (hparking : o' = .parking → 0 < l.mFree)
    (hleaving : o' = .leaving → l.mFree = 0) : Tested l' := by
  have hat : ∀ (j : Nat) (q : Owner), l'.owners[j]? = some q →
      (q = o' ∨ l.owners[j]? = some q) := by
    intro j q hq
    rw [howners] at hq
    by_cases hij : i = j
    · subst hij
      rw [getElem?_set_self ho] at hq
      exact .inl (Option.some.inj hq).symm
    · rw [List.getElem?_set_ne hij] at hq
      exact .inr hq
  refine ⟨hfree ▸ h.free, fun j hj => ?_, fun j hj => ?_⟩
  · rw [hfree]
    exact (hat j _ hj).elim (fun he => hparking he.symm) (h.parking j)
  · rw [hfree]
    exact (hat j _ hj).elim (fun he => hleaving he.symm) (h.leaving j)

theorem owner_tested (hm : Mutex l) (h : Tested l) (ho : l.owners[i]? = some o)
    (hrun : l.carOwner i o = some l') : Tested l' := by
  have hm' := owner_mutex hm ho hrun
  cases o with
  | arriving =>
    rw [Lot.carOwner] at hrun
    split at hrun <;> cases hrun
    exact h.moved ho rfl rfl nofun nofun
  | locked =>
    cases hrun
    have hfree := h.free
    -- The test itself: the branch taken says what the counter was.
    refine h.moved ho rfl rfl ?_ ?_
    · intro hto
      by_contra hnot
      rw [if_neg hnot] at hto
      cases hto
    · intro hto
      by_contra hnot
      rw [if_pos (show l.mFree > 0 by omega)] at hto
      cases hto
  | parking =>
    cases hrun
    -- The decrement: the test was made under the same lock, so the counter is still positive.
    have hfree := h.parking i ho
    have hset : (l.owners.set i .parked)[i]? = some .parked := getElem?_set_self ho
    refine Tested.changed hm' (show 0 ≤ l.mFree - 1 by omega) (t := .owner i)
      (inside_owner (o := .parked) hset) ?_
    intro j hj
    cases hj
    exact ⟨_, hset, nofun, nofun⟩
  | parked => cases hrun; exact h.moved ho rfl rfl nofun nofun
  | posting => cases hrun; exact h.moved ho rfl rfl nofun nofun
  | waiting =>
    rw [Lot.carOwner] at hrun
    split at hrun <;> cases hrun
    exact h.moved ho rfl rfl nofun nofun
  | leaving => cases hrun; exact h.moved ho rfl rfl nofun nofun
  | left => cases hrun
  | returned => cases hrun

theorem attendant_tested (hm : Mutex l) (h : Tested l) {a : Attendant} (ha : l.attendant = a)
    (hrun : l.carAttendant a = some l') : Tested l' := by
  have hm' := attendant_mutex hm ha hrun
  cases a with
  | waiting =>
    rw [Lot.carAttendant] at hrun
    split at hrun <;> cases hrun
    exact ⟨h.free, h.parking, h.leaving⟩
  | locking =>
    rw [Lot.carAttendant] at hrun
    split at hrun <;> cases hrun
    exact ⟨h.free, h.parking, h.leaving⟩
  | taking =>
    cases hrun
    have hfree := h.free
    exact Tested.changed hm' (show 0 ≤ l.mFree + 1 by omega) (t := .attendant) rfl nofun
  | taken => cases hrun; exact ⟨h.free, h.parking, h.leaving⟩
  | posting => cases hrun; exact ⟨h.free, h.parking, h.leaving⟩

theorem arrive_tested (h : Tested l) : Tested l.arrive := by
  refine ⟨h.free, fun i hi => ?_, fun i hi => ?_⟩
  · exact (arrive_at hi).elim (h.parking i) nofun
  · exact (arrive_at hi).elim (h.leaving i) nofun

/-! ## §3. The two accounts. -/

/-- The owner has decremented the counter and has not yet posted. -/
def unposted : Owner → Bool
  | .parked | .posting => true
  | _ => false

/-- The valet is between its wait and its increment. -/
def between : Attendant → Bool
  | .locking | .taking => true
  | _ => false

/-- The valet is between its wait and its post. -/
def busy : Attendant → Bool
  | .waiting => false
  | _ => true

/-- Where the spots of a lot are, and who owes a wake-up to the owners that wait. -/
structure Accounts (n : Nat) (l : Lot) : Prop where
  spots : l.mFree + l.owners.countP unposted + l.newVehicle + (between l.attendant).toNat = n
  waits : l.owners.countP (· = .waiting) = l.newVehicle + (busy l.attendant).toNat + l.inCharge

theorem countP_move (f : Owner → Bool) (ho : l.owners[i]? = some o) (o' : Owner) :
    (l.owners.set i o').countP f + (f o).toNat = l.owners.countP f + (f o').toNat := by
  obtain ⟨hlt, hget⟩ := List.getElem?_eq_some_iff.mp ho
  -- The subtraction of `List.countP_set` does not cut off.
  have hpos : (f o).toNat ≤ l.owners.countP f := by
    cases hf : f o with
    | false => exact Nat.zero_le _
    | true => exact List.countP_pos_iff.mpr ⟨o, hget ▸ List.getElem_mem hlt, hf⟩
  rw [List.countP_set hlt, hget]
  revert hpos
  cases f o <;> cases f o' <;> intro hpos <;> simp only [Bool.toNat_true, Bool.toNat_false, if_true,
    Bool.false_eq_true, if_false] at hpos ⊢ <;> omega

/-- An owner moves to the point `o'`: both accounts, as far as it is concerned. -/
theorem Accounts.owner {n : Nat} (h : Accounts n l) (ho : l.owners[i]? = some o) (o' : Owner)
    (howners : l'.owners = l.owners.set i o') (hvalet : l'.attendant = l.attendant)
    (hspots : l'.mFree + (unposted o').toNat + l'.newVehicle
      = l.mFree + (unposted o).toNat + l.newVehicle)
    (hwaits : (decide (o' = .waiting)).toNat + l.newVehicle + l.inCharge
      = (decide (o = .waiting)).toNat + l'.newVehicle + l'.inCharge) : Accounts n l' := by
  have hunposted := countP_move unposted ho o'
  have hwaiting := countP_move (· = .waiting) ho o'
  obtain ⟨hspots', hwaits'⟩ := h
  constructor
  · rw [howners, hvalet]
    omega
  · rw [howners, hvalet]
    omega

theorem owner_accounts {n : Nat} (h : Accounts n l) (ho : l.owners[i]? = some o)
    (hrun : l.carOwner i o = some l') : Accounts n l' := by
  cases o with
  | arriving =>
    rw [Lot.carOwner] at hrun
    split at hrun <;> cases hrun
    exact h.owner ho .locked rfl rfl rfl rfl
  | locked =>
    cases hrun
    refine h.owner ho _ rfl rfl ?_ ?_ <;> split <;> rfl
  | parking =>
    cases hrun
    -- The spot goes from the counter to the owner.
    refine h.owner ho .parked rfl rfl ?_ rfl
    show l.mFree - 1 + 1 + (l.newVehicle : Int) = l.mFree + 0 + l.newVehicle
    omega
  | parked => cases hrun; exact h.owner ho .posting rfl rfl rfl rfl
  | posting =>
    cases hrun
    -- The spot goes from the owner to the semaphore, and the owner begins to wait.
    refine h.owner ho .waiting rfl rfl ?_ ?_
    · show l.mFree + 0 + ((l.newVehicle + 1 : Nat) : Int) = l.mFree + 1 + l.newVehicle
      omega
    · show 1 + l.newVehicle + l.inCharge = 0 + (l.newVehicle + 1) + l.inCharge
      omega
  | waiting =>
    rw [Lot.carOwner] at hrun
    split at hrun <;> cases hrun
    rename_i hpos
    refine h.owner ho .returned rfl rfl rfl ?_
    show 0 + l.newVehicle + l.inCharge = 1 + l.newVehicle + (l.inCharge - 1)
    omega
  | leaving => cases hrun; exact h.owner ho .left rfl rfl rfl rfl
  | left => cases hrun
  | returned => cases hrun

/-- The valet moves to the point `a'`. -/
theorem Accounts.attendant {n : Nat} (h : Accounts n l) (howners : l'.owners = l.owners)
    (hspots : l'.mFree + l'.newVehicle + (between l'.attendant).toNat
      = l.mFree + l.newVehicle + (between l.attendant).toNat)
    (hwaits : l'.newVehicle + (busy l'.attendant).toNat + l'.inCharge
      = l.newVehicle + (busy l.attendant).toNat + l.inCharge) : Accounts n l' := by
  obtain ⟨hspots', hwaits'⟩ := h
  constructor
  · rw [howners]
    omega
  · rw [howners, hwaits, hwaits']

theorem attendant_accounts {n : Nat} (h : Accounts n l) {a : Attendant} (ha : l.attendant = a)
    (hrun : l.carAttendant a = some l') : Accounts n l' := by
  cases a with
  | waiting =>
    rw [Lot.carAttendant] at hrun
    split at hrun <;> cases hrun
    rename_i hpos
    -- The valet takes the spot, and the wake-up with it, from the semaphore.
    refine h.attendant rfl ?_ ?_ <;> rw [ha]
    · show l.mFree + ((l.newVehicle - 1 : Nat) : Int) + 1 = l.mFree + l.newVehicle + 0
      omega
    · show l.newVehicle - 1 + 1 + l.inCharge = l.newVehicle + 0 + l.inCharge
      omega
  | locking =>
    rw [Lot.carAttendant] at hrun
    split at hrun <;> cases hrun
    refine h.attendant rfl ?_ ?_ <;> rw [ha] <;> rfl
  | taking =>
    cases hrun
    refine h.attendant rfl ?_ ?_ <;> rw [ha]
    · show l.mFree + 1 + (l.newVehicle : Int) + 0 = l.mFree + l.newVehicle + 1
      omega
    · rfl
  | taken =>
    cases hrun
    refine h.attendant rfl ?_ ?_ <;> rw [ha] <;> rfl
  | posting =>
    cases hrun
    refine h.attendant rfl ?_ ?_ <;> rw [ha]
    · rfl
    · show l.newVehicle + 0 + (l.inCharge + 1) = l.newVehicle + 1 + l.inCharge
      omega

theorem arrive_accounts {n : Nat} (h : Accounts n l) : Accounts n l.arrive := by
  obtain ⟨hspots, hwaits⟩ := h
  constructor
  · show l.mFree + ((l.owners ++ [Owner.arriving]).countP unposted : Int) + _ + _ = _
    rw [List.countP_append]
    exact hspots
  · show (l.owners ++ [Owner.arriving]).countP (· = Owner.waiting) = _
    rw [List.countP_append]
    exact hwaits

/-! ## §4. Every reachable state. -/

structure LotInv (n : Nat) (l : Lot) : Prop where
  mutex : Mutex l
  tested : Tested l
  accounts : Accounts n l

theorem lotInv_start (v : Vehicle) : LotInv (capacity v) (Lot.start v) := by
  refine ⟨?_, ⟨Int.natCast_nonneg _, nofun, nofun⟩, ?_, rfl⟩
  · intro t
    cases t <;> exact iff_of_false Bool.false_ne_true nofun
  · rfl

theorem lotInv_step {s s' : State} {e : Event} (h : ∀ v, LotInv (capacity v) (s v))
    (hstep : Step s e s') (v : Vehicle) : LotInv (capacity v) (s' v) := by
  -- An event concerns one lot, and the two share nothing.
  have hupdate : ∀ (u : Vehicle) (l : Lot), LotInv (capacity u) l →
      LotInv (capacity v) (Function.update s u l v) := by
    intro u l hl
    by_cases huv : v = u
    · subst huv
      rw [Function.update_self]
      exact hl
    · rw [Function.update_of_ne huv]
      exact h v
  cases hstep with
  | @arrive n =>
    have hlot := h (ownerVehicle n)
    exact hupdate _ _ ⟨arrive_mutex hlot.mutex, arrive_tested hlot.tested,
      arrive_accounts hlot.accounts⟩
  | @owner u i o l ho hrun =>
    have hlot := h u
    exact hupdate _ _ ⟨owner_mutex hlot.mutex ho hrun, owner_tested hlot.mutex hlot.tested ho hrun,
      owner_accounts hlot.accounts ho hrun⟩
  | @attendant n l hn hrun =>
    have hlot := h (attendantVehicle n)
    exact hupdate _ _ ⟨attendant_mutex hlot.mutex rfl hrun,
      attendant_tested hlot.mutex hlot.tested rfl hrun,
      attendant_accounts hlot.accounts rfl hrun⟩

theorem lot_invariant {s : State} (h : system.Reachable s) (v : Vehicle) :
    LotInv (capacity v) (s v) := by
  refine System.Reachable.invariant (I := fun s => ∀ v, LotInv (capacity v) (s v)) ?_ ?_ h v
  · rintro s rfl v
    exact lotInv_start v
  · exact fun s e s' hs hstep => lotInv_step hs hstep

/-! ## §5. When only arriving owners can step. -/

/-- A thread of a quiet lot: an owner has not begun or is done. -/
def settled : Owner → Prop
  | .arriving | .left | .returned => True
  | _ => False

/-- In a quiet state no thread that the mutex does not stop has an access left. -/
theorem quiet_owner {s : State} (hq : Quiet s) {v : Vehicle} (ho : (s v).owners[i]? = some o)
    (hne : o ≠ .arriving) : (s v).carOwner i o = none := by
  rw [Option.eq_none_iff_forall_ne_some]
  intro l hrun
  have harr : (s v).owners[i]? = some .arriving := hq _ _ (.owner ho hrun)
  rw [ho] at harr
  exact hne (Option.some.inj harr)

theorem quiet_valet {s : State} (hq : Quiet s) (v : Vehicle) :
    (s v).carAttendant (s v).attendant = none := by
  rw [Option.eq_none_iff_forall_ne_some]
  intro l hrun
  cases v with
  | pickup => exact hq _ _ (@Step.attendant s 0 l (by decide) hrun)
  | automobile => exact hq _ _ (@Step.attendant s 1 l (by decide) hrun)

/-- Nobody is inside: whoever is has an access to make. -/
theorem quiet_free {s : State} {v : Vehicle} (hm : Mutex (s v)) (hq : Quiet s) :
    (s v).mtxFree = none := by
  rw [Option.eq_none_iff_forall_ne_some]
  intro t ht
  have hin := (hm t).mpr ht
  cases t with
  | owner i =>
    rw [inside, Option.any_eq_true] at hin
    obtain ⟨o, ho, hholds⟩ := hin
    have hstuck := quiet_owner hq ho (by rintro rfl; cases hholds)
    -- From each point inside the mutex an access can be made.
    cases o <;> first
      | exact absurd hholds Bool.false_ne_true
      | exact absurd hstuck (Option.some_ne_none _)
  | attendant =>
    have hstuck := quiet_valet hq v
    rw [inside] at hin
    cases ha : (s v).attendant <;> rw [ha] at hstuck hin <;> first
      | exact absurd hin Bool.false_ne_true
      | exact absurd hstuck (Option.some_ne_none _)

/-- The valet waits for a vehicle that is not there. -/
theorem quiet_attendant {s : State} {v : Vehicle} (hm : Mutex (s v)) (hq : Quiet s) :
    (s v).attendant = .waiting ∧ (s v).newVehicle = 0 := by
  have hstuck := quiet_valet hq v
  cases ha : (s v).attendant with
  | waiting =>
    rw [ha, Lot.carAttendant] at hstuck
    split at hstuck
    · cases hstuck
    · exact ⟨rfl, by omega⟩
  | locking =>
    rw [ha, Lot.carAttendant, if_pos (quiet_free hm hq)] at hstuck
    cases hstuck
  | taking => rw [ha] at hstuck; cases hstuck
  | taken => rw [ha] at hstuck; cases hstuck
  | posting => rw [ha] at hstuck; cases hstuck

/-- An owner that waits is owed a wake-up, and there is nobody else left to give it. -/
theorem quiet_not_waiting {n : Nat} {s : State} {v : Vehicle} (h : LotInv n (s v)) (hq : Quiet s) :
    (s v).owners[i]? ≠ some .waiting := by
  intro ho
  obtain ⟨hvalet, hnew⟩ := quiet_attendant h.mutex hq
  have hstuck := quiet_owner hq ho nofun
  have hwaits := h.accounts.waits
  -- The account of the waits says that the wake-up is in `inCharge` already.
  rw [hvalet, hnew] at hwaits
  have hpos : 0 < (s v).owners.countP (· = .waiting) :=
    List.countP_pos_iff.mpr ⟨_, List.mem_of_getElem? ho, decide_eq_true rfl⟩
  rw [Lot.carOwner] at hstuck
  split at hstuck
  · cases hstuck
  · change (s v).owners.countP (· = .waiting) = 0 + 0 + (s v).inCharge at hwaits
    omega

theorem quiet_settled {n : Nat} {s : State} {v : Vehicle} (h : LotInv n (s v)) (hq : Quiet s)
    (ho : (s v).owners[i]? = some o) : settled o := by
  have hnot : ∀ p, (s v).carOwner i o = some p → o ≠ .arriving → False := by
    intro p hp hne
    rw [quiet_owner hq ho hne] at hp
    cases hp
  cases o with
  | arriving => trivial
  | locked => exact hnot _ rfl nofun
  | parking => exact hnot _ rfl nofun
  | parked => exact hnot _ rfl nofun
  | posting => exact hnot _ rfl nofun
  | waiting => exact quiet_not_waiting h hq ho
  | leaving => exact hnot _ rfl nofun
  | left => trivial
  | returned => trivial

theorem quiet_returned {n : Nat} {s : State} {v : Vehicle} (h : LotInv n (s v)) (hq : Quiet s) :
    (s v).mFree = n ∧ ∀ o ∈ (s v).owners, settled o := by
  have hall : ∀ o ∈ (s v).owners, settled o := by
    intro o ho
    obtain ⟨i, hi⟩ := List.mem_iff_getElem?.mp ho
    exact quiet_settled h hq hi
  -- No owner holds a spot, nor does the semaphore or the valet, so the counter has them all.
  have hnone : (s v).owners.countP unposted = 0 := by
    rw [List.countP_eq_zero]
    intro o ho hunposted
    have hsettled := hall o ho
    cases o <;> first | exact hsettled | exact absurd hunposted Bool.false_ne_true
  obtain ⟨hvalet, hnew⟩ := quiet_attendant h.mutex hq
  have hspots := h.accounts.spots
  rw [hvalet, hnew, hnone] at hspots
  change (s v).mFree + 0 + 0 + 0 = (n : Int) at hspots
  exact ⟨by omega, hall⟩

/-! ## §6. The law. -/

/-- An access of an owner moves that owner, and only from `leaving` to `left`. -/
theorem carOwner_moves (h : l.carOwner i o = some l') :
    ∃ o', l'.owners = l.owners.set i o' ∧ (o' = .left → o = .leaving) := by
  cases o with
  | arriving =>
    rw [Lot.carOwner] at h
    split at h <;> cases h
    exact ⟨_, rfl, nofun⟩
  | locked =>
    cases h
    exact ⟨_, rfl, by split <;> nofun⟩
  | parking => cases h; exact ⟨_, rfl, nofun⟩
  | parked => cases h; exact ⟨_, rfl, nofun⟩
  | posting => cases h; exact ⟨_, rfl, nofun⟩
  | waiting =>
    rw [Lot.carOwner] at h
    split at h <;> cases h
    exact ⟨_, rfl, nofun⟩
  | leaving => exact ⟨.left, by cases h; rfl, fun _ => rfl⟩
  | left => cases h
  | returned => cases h

theorem carAttendant_owners {a : Attendant} (h : l.carAttendant a = some l') :
    l'.owners = l.owners := by
  cases a with
  | waiting => rw [Lot.carAttendant] at h; split at h <;> cases h; rfl
  | locking => rw [Lot.carAttendant] at h; split at h <;> cases h; rfl
  | taking => cases h; rfl
  | taken => cases h; rfl
  | posting => cases h; rfl

/-- An owner that goes without parking has found the counter at 0. -/
theorem left_after_leaving {s s' : State} {e : Event} {v : Vehicle} (hstep : Step s e s')
    (h : (s' v).owners[i]? = some .left) :
    (s v).owners[i]? = some .left ∨ (s v).owners[i]? = some .leaving := by
  have hupdate : ∀ (u : Vehicle) (l : Lot),
      (l.owners[i]? = some .left →
        (s u).owners[i]? = some .left ∨ (s u).owners[i]? = some .leaving) →
      (Function.update s u l v).owners[i]? = some .left →
      (s v).owners[i]? = some .left ∨ (s v).owners[i]? = some .leaving := by
    intro u l hl hleft
    by_cases huv : v = u
    · subst huv
      rw [Function.update_self] at hleft
      exact hl hleft
    · rw [Function.update_of_ne huv] at hleft
      exact .inl hleft
  cases hstep with
  | arrive => exact hupdate _ _ (fun hl => .inl ((arrive_at hl).resolve_right nofun)) h
  | @owner u j o l ho hrun =>
    obtain ⟨o', howners, hleaving⟩ := carOwner_moves hrun
    refine hupdate u l (fun hl => ?_) h
    rw [howners] at hl
    by_cases hij : j = i
    · subst hij
      rw [getElem?_set_self ho] at hl
      exact .inr (hleaving (Option.some.inj hl) ▸ ho)
    · rw [List.getElem?_set_ne hij] at hl
      exact .inl hl
  | @attendant n l hn hrun =>
    refine hupdate _ l (fun hl => .inl ?_) h
    rw [carAttendant_owners hrun] at hl
    exact hl

/-- **The law of the car park**, for every vehicle type in every reachable state. -/
theorem spots_conserved {s : State} (h : system.Reachable s) (v : Vehicle) :
    (s v).mFree + (s v).owners.countP unposted + (s v).newVehicle
        + (between (s v).attendant).toNat = capacity v
      ∧ 0 ≤ (s v).mFree ∧ (s v).mFree ≤ capacity v
      ∧ (∀ i : Nat, (s v).owners[i]? = some .leaving → (s v).mFree = 0)
      ∧ (∀ e s', system.step s e s' → ∀ i : Nat, (s' v).owners[i]? = some .left →
          (s v).owners[i]? = some .left ∨ (s v).owners[i]? = some .leaving)
      ∧ (Quiet s → (s v).mFree = capacity v ∧ ∀ o ∈ (s v).owners, settled o) := by
  have hinv := lot_invariant h v
  have hspots := hinv.accounts.spots
  refine ⟨hspots, hinv.tested.free, by omega, hinv.tested.leaving, ?_, quiet_returned hinv⟩
  exact fun e s' hstep i hleft => left_after_leaving hstep hleft

/-- A run can lead to this lot of the pickups. -/
def Leads (l : Lot) : Prop := ∃ s, system.Reachable s ∧ s .pickup = l

theorem Leads.arrive (h : Leads l) : Leads l.arrive := by
  obtain ⟨s, hs, rfl⟩ := h
  exact ⟨_, hs.next (@Step.arrive s 0), Function.update_self ..⟩

theorem Leads.owner (h : Leads l) (i : Nat) (ho : l.owners[i]? = some o)
    (hrun : l.carOwner i o = some l') : Leads l' := by
  obtain ⟨s, hs, rfl⟩ := h
  exact ⟨_, hs.next (.owner ho hrun), Function.update_self ..⟩

theorem Leads.attendant (h : Leads l) (hrun : l.carAttendant l.attendant = some l') : Leads l' := by
  obtain ⟨s, hs, rfl⟩ := h
  exact ⟨_, hs.next (@Step.attendant s 0 l' (by decide) hrun), Function.update_self ..⟩

/-- One owner has left its pickup to the valet, and a second one has just parked. -/
theorem twoOwners_reachable : Leads ⟨3, some (.owner 1), 0, 0, [.returned, .parked], .waiting⟩ := by
  have hstart : Leads (Lot.start .pickup) := ⟨_, .start rfl, rfl⟩
  have hparked : Leads ⟨3, none, 1, 0, [.waiting, .arriving], .waiting⟩ :=
    ((((hstart.arrive.arrive.owner 0 rfl rfl).owner 0 rfl rfl).owner 0 rfl rfl).owner 0 rfl
      rfl).owner 0 rfl rfl
  have hvalet : Leads ⟨4, none, 0, 1, [.waiting, .arriving], .waiting⟩ :=
    ((((hparked.attendant rfl).attendant rfl).attendant rfl).attendant rfl).attendant rfl
  have hreturned : Leads ⟨4, none, 0, 0, [.returned, .arriving], .waiting⟩ := hvalet.owner 0 rfl rfl
  exact ((hreturned.owner 1 rfl rfl).owner 1 rfl rfl).owner 1 rfl rfl

theorem spots_conserved_twoOwners : ∃ s, system.Reachable s
    ∧ s .pickup = ⟨3, some (.owner 1), 0, 0, [.returned, .parked], .waiting⟩
    ∧ (s .pickup).mFree + (s .pickup).owners.countP unposted + (s .pickup).newVehicle
        + (between (s .pickup).attendant).toNat = 4
    ∧ 0 ≤ (s .pickup).mFree ∧ (s .pickup).mFree ≤ 4 := by
  obtain ⟨s, hs, hlot⟩ := twoOwners_reachable
  obtain ⟨hspots, hfree, hcapacity, _⟩ := spots_conserved hs .pickup
  exact ⟨s, hs, hlot, hspots, hfree, hcapacity⟩

end SystemOS.Parking.Conservation
