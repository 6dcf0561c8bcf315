/-
  SystemOS.Parking.Simulation — the program that `main` runs over the car park.

  `simulateNoTemporarySpots` creates one owner for every temporary spot, joins them all, and then
  creates and joins one more owner of each type.  A main thread is a list of creations and joins; the
  owners and the two valets run beside it in any order.

  Main results:
    * `runs_end`           — a main thread that joins what it has created always comes to its end.
    * `nobody_turned_away` — no owner leaves as long as a new owner finds fewer unjoined ones than
      spots.
    * `simulation_ends`    — `simulateNoTemporarySpots` shows no owner that leaves.
-/
import Mathlib.Data.List.Perm.Subperm
import Mathlib.Algebra.GroupWithZero.Nat
import SystemOS.Parking.Conservation

namespace SystemOS.Parking.Simulation

open SystemOS.Lib.Transition SystemOS.Parking.CarPark SystemOS.Parking.Conservation

/-! ## §1. The main thread. -/

/-- `pthread_create` of an owner with its argument, and `pthread_join` of an owner of a type. -/
inductive Action
  | create (vehicleType : Int)
  | join (v : Vehicle) (i : Nat)

/-- The join of `ownerThreads[i]`; the pickups are in front. -/
def joinOwner (i : Nat) : Action :=
  if i < MAX_PICKUPS then .join .pickup i else .join .automobile (i - MAX_PICKUPS)

/-- The loop that counts `parked_vehicles` down. -/
def joinOwners : Nat → List Action
  | 0 => []
  | parked_vehicles + 1 => joinOwner parked_vehicles :: joinOwners parked_vehicles

def simulateNoTemporarySpots : List Action :=
  List.replicate MAX_PICKUPS (.create 0) ++ List.replicate MAX_AUTOMOBILES (.create 1) ++
    joinOwners (MAX_PICKUPS + MAX_AUTOMOBILES) ++
    [.create 0, .join .pickup MAX_PICKUPS, .create 1, .join .automobile MAX_AUTOMOBILES]

/-- The lots, and what the main thread has still to do. -/
structure Program where
  lots : State
  todo : List Action

/-- The thread has returned. -/
def ended : Owner → Bool
  | .left | .returned => true
  | _ => false

def unfinished (o : Owner) : Bool := !ended o

inductive Event
  | main
  | thread (e : CarPark.Event)

inductive Step : Program → Event → Program → Prop
  | create {p : Program} {vehicleType : Int} {rest : List Action} {lots : State} :
      p.todo = .create vehicleType :: rest → CarPark.Step p.lots (.arrive vehicleType) lots →
      Step p .main ⟨lots, rest⟩
  | join {p : Program} {v : Vehicle} {i : Nat} {o : Owner} {rest : List Action} :
      p.todo = .join v i :: rest → (p.lots v).owners[i]? = some o → ended o = true →
      Step p .main ⟨p.lots, rest⟩
  | thread {p : Program} {e : CarPark.Event} {lots : State} : (∀ n, e ≠ .arrive n) →
      CarPark.Step p.lots e lots → Step p (.thread e) ⟨lots, p.todo⟩

/-- The runs of a main thread. -/
def programSystem (actions : List Action) : System Program Event where
  init p := p = ⟨Lot.start, actions⟩
  step := Step

variable {p p' : Program} {e : Event} {v : Vehicle} {l l' : Lot} {i : Nat} {o : Owner}

/-! ## §2. The accesses that are left. -/

/-- The accesses that an owner has before it, with the five of the valet for its vehicle. -/
def ownerWork : Owner → Nat
  | .arriving => 11
  | .locked => 10
  | .parking => 9
  | .parked => 8
  | .posting => 7
  | .waiting => 1
  | .leaving => 1
  | .left => 0
  | .returned => 0

def attendantWork : Attendant → Nat
  | .waiting => 0
  | .locking => 4
  | .taking => 3
  | .taken => 2
  | .posting => 1

def lotWork (l : Lot) : Nat :=
  (l.owners.map ownerWork).sum + 5 * l.newVehicle + attendantWork l.attendant

def actionWork : Action → Nat
  | .create _ => 12
  | .join _ _ => 1

/-- Every run from here has at most that many steps. -/
def work (p : Program) : Nat :=
  lotWork (p.lots .pickup) + lotWork (p.lots .automobile) + (p.todo.map actionWork).sum

theorem sum_move (os : List Owner) (i : Nat) (ho : os[i]? = some o) (o' : Owner) :
    ((os.set i o').map ownerWork).sum + ownerWork o = (os.map ownerWork).sum + ownerWork o' := by
  induction os generalizing i with
  | nil => simp at ho
  | cons x os ih =>
    cases i with
    | zero =>
      obtain rfl : x = o := by simpa using ho
      simp only [List.set_cons_zero, List.map_cons, List.sum_cons]
      omega
    | succ i =>
      have hrest := ih i (by simpa using ho)
      simp only [List.set_cons_succ, List.map_cons, List.sum_cons]
      omega

/-- An access of an owner is one access less; an owner that leaves saves nine. -/
theorem carOwner_work (ho : l.owners[i]? = some o) (hrun : l.carOwner i o = some l') :
    lotWork l' + 1 ≤ lotWork l ∧ ((o = .locked → 0 < l.mFree) → lotWork l' + 1 = lotWork l) := by
  have hmove := sum_move l.owners i ho
  cases o with
  | arriving =>
    rw [Lot.carOwner] at hrun
    split at hrun <;> cases hrun
    have := hmove .locked
    simp only [lotWork, Lot.goto, ownerWork] at *
    omega
  | locked =>
    cases hrun
    by_cases hfree : l.mFree > 0
    · have := hmove .parking
      simp only [lotWork, Lot.goto, ownerWork, if_pos hfree] at *
      omega
    · have := hmove .leaving
      simp only [lotWork, Lot.goto, ownerWork, if_neg hfree] at *
      exact ⟨by omega, fun h => absurd (h trivial) hfree⟩
  | parking =>
    cases hrun
    have := hmove .parked
    simp only [lotWork, Lot.goto, ownerWork] at *
    omega
  | parked =>
    cases hrun
    have := hmove .posting
    simp only [lotWork, Lot.goto, ownerWork] at *
    omega
  | posting =>
    cases hrun
    have := hmove .waiting
    simp only [lotWork, Lot.goto, ownerWork] at *
    omega
  | waiting =>
    rw [Lot.carOwner] at hrun
    split at hrun <;> cases hrun
    have := hmove .returned
    simp only [lotWork, Lot.goto, ownerWork] at *
    omega
  | leaving =>
    cases hrun
    have := hmove .left
    simp only [lotWork, Lot.goto, ownerWork] at *
    omega
  | left => cases hrun
  | returned => cases hrun

theorem carAttendant_work {a : Attendant} (ha : l.attendant = a)
    (hrun : l.carAttendant a = some l') : lotWork l' + 1 = lotWork l := by
  cases a with
  | waiting =>
    rw [Lot.carAttendant] at hrun
    split at hrun <;> cases hrun
    simp only [lotWork, attendantWork, ha]
    omega
  | locking =>
    rw [Lot.carAttendant] at hrun
    split at hrun <;> cases hrun
    simp only [lotWork, attendantWork, ha]
  | taking => cases hrun; simp only [lotWork, attendantWork, ha]
  | taken => cases hrun; simp only [lotWork, attendantWork, ha]
  | posting => cases hrun; simp only [lotWork, attendantWork, ha]

theorem arrive_work : lotWork l.arrive = lotWork l + 11 := by
  simp only [lotWork, Lot.arrive, List.map_append, List.sum_append, List.map_cons, List.map_nil,
    List.sum_cons, List.sum_nil, ownerWork]
  omega

/-- The work of both lots, when one of them changes. -/
theorem lots_work (s : State) (v : Vehicle) (l : Lot) :
    lotWork (Function.update s v l .pickup) + lotWork (Function.update s v l .automobile)
        + lotWork (s v)
      = lotWork (s .pickup) + lotWork (s .automobile) + lotWork l := by
  cases v with
  | pickup => simp; omega
  | automobile => simp; omega

/-- **Every step is one step less.** -/
theorem step_work (h : Step p e p') :
    work p' + 1 ≤ work p ∧
      ((∀ v, ∀ i : Nat, (p.lots v).owners[i]? = some .locked → 0 < (p.lots v).mFree) →
        work p' + 1 = work p) := by
  cases h with
  | @create n _ _ htodo hstep =>
    cases hstep with
    | arrive =>
      have hlots := lots_work p.lots (ownerVehicle n) (p.lots (ownerVehicle n)).arrive
      rw [arrive_work] at hlots
      simp only [work, htodo, List.map_cons, List.sum_cons, actionWork]
      omega
  | join htodo =>
    simp only [work, htodo, List.map_cons, List.sum_cons, actionWork]
    omega
  | thread hne hstep =>
    cases hstep with
    | arrive => exact absurd rfl (hne _)
    | @owner v i o l ho hrun =>
      have hlots := lots_work p.lots v l
      obtain ⟨hless, hone⟩ := carOwner_work ho hrun
      simp only [work]
      refine ⟨by omega, fun hfree => ?_⟩
      have := hone (by rintro rfl; exact hfree v i ho)
      omega
    | @attendant n l _ hrun =>
      have hlots := lots_work p.lots (attendantVehicle n) l
      have hone := carAttendant_work rfl hrun
      simp only [work]
      omega

/-! ## §3. What the main thread knows. -/

/-- Of `n` owners of type `v` those in `joined` have been joined: each join is of a thread that exists
    and is joined once, and each creation leaves at most `c` owners that are not joined. -/
def Fits (v : Vehicle) (c : Nat) : List Action → Nat → List Nat → Prop
  | [], _, _ => True
  | .create vehicleType :: rest, n, joined =>
    if ownerVehicle vehicleType = v then n + 1 ≤ c + joined.length ∧ Fits v c rest (n + 1) joined
    else Fits v c rest n joined
  | .join u i :: rest, n, joined =>
    if u = v then i < n ∧ i ∉ joined ∧ Fits v c rest n (i :: joined) else Fits v c rest n joined

/-- The main thread and the owners of type `v`. -/
structure Tracks (v : Vehicle) (c : Nat) (p : Program) (n : Nat) (joined : List Nat) : Prop where
  count : (p.lots v).owners.length = n
  fits : Fits v c p.todo n joined
  ended : ∀ i ∈ joined, ∃ o, (p.lots v).owners[i]? = some o ∧ ended o = true
  nodup : joined.Nodup
  room : n ≤ c + joined.length

variable {c n : Nat} {joined : List Nat}

/-- A thread that has returned makes no access. -/
theorem ended_kept {s s' : State} {e : CarPark.Event} (hstep : CarPark.Step s e s')
    (ho : (s v).owners[i]? = some o) (hended : ended o = true) : (s' v).owners[i]? = some o := by
  cases hstep with
  | @arrive n =>
    by_cases hv : v = ownerVehicle n
    · subst hv
      rw [Function.update_self]
      exact arrive_keeps ho
    · rwa [Function.update_of_ne hv]
  | @owner u j q l hq hrun =>
    by_cases hv : v = u
    · subst hv
      rw [Function.update_self]
      obtain ⟨q', howners, _⟩ := carOwner_moves hrun
      have hij : j ≠ i := by
        rintro rfl
        obtain rfl : q = o := Option.some.inj (hq.symm.trans ho)
        cases q <;> simp [Lot.carOwner, ended] at hrun hended
      rw [howners, List.getElem?_set_ne hij]
      exact ho
    · rwa [Function.update_of_ne hv]
  | @attendant n l hn hrun =>
    by_cases hv : v = attendantVehicle n
    · subst hv
      rw [Function.update_self, carAttendant_owners hrun]
      exact ho
    · rwa [Function.update_of_ne hv]

/-- The accesses of the threads create no owner. -/
theorem thread_count {s s' : State} {e : CarPark.Event} (hne : ∀ n, e ≠ .arrive n)
    (hstep : CarPark.Step s e s') (v : Vehicle) :
    (s' v).owners.length = (s v).owners.length := by
  cases hstep with
  | arrive => exact absurd rfl (hne _)
  | @owner u j q l hq hrun =>
    by_cases hv : v = u
    · subst hv
      rw [Function.update_self]
      obtain ⟨q', howners, _⟩ := carOwner_moves hrun
      rw [howners, List.length_set]
    · rw [Function.update_of_ne hv]
  | @attendant n l hn hrun =>
    by_cases hv : v = attendantVehicle n
    · subst hv
      rw [Function.update_self, carAttendant_owners hrun]
    · rw [Function.update_of_ne hv]

theorem Tracks.step (h : Tracks v c p n joined) (hstep : Step p e p') :
    ∃ n' joined', Tracks v c p' n' joined' := by
  cases hstep with
  | @create t rest lots htodo hstep =>
    have hkept : ∀ i ∈ joined, ∃ o, (lots v).owners[i]? = some o ∧ Simulation.ended o = true := by
      intro i hi
      obtain ⟨o, ho, hended⟩ := h.ended i hi
      exact ⟨o, ended_kept hstep ho hended, hended⟩
    have hfits := h.fits
    rw [htodo, Fits] at hfits
    cases hstep
    by_cases hv : ownerVehicle t = v
    · subst hv
      rw [if_pos rfl] at hfits
      refine ⟨n + 1, joined, ?_, hfits.2, hkept, h.nodup, hfits.1⟩
      show (Function.update p.lots _ _ (ownerVehicle t)).owners.length = n + 1
      rw [Function.update_self, ← h.count]
      exact List.length_append
    · rw [if_neg hv] at hfits
      refine ⟨n, joined, ?_, hfits, hkept, h.nodup, h.room⟩
      show (Function.update p.lots _ _ v).owners.length = n
      rw [Function.update_of_ne (Ne.symm hv)]
      exact h.count
  | @join u i o rest htodo ho hended =>
    have hfits := h.fits
    rw [htodo, Fits] at hfits
    by_cases hv : u = v
    · subst hv
      rw [if_pos rfl] at hfits
      obtain ⟨_, hnew, hrest⟩ := hfits
      refine ⟨n, i :: joined, h.count, hrest, ?_, List.nodup_cons.mpr ⟨hnew, h.nodup⟩, ?_⟩
      · intro j hj
        rcases List.mem_cons.mp hj with rfl | hj
        · exact ⟨o, ho, hended⟩
        · exact h.ended j hj
      · have := h.room
        rw [List.length_cons]
        omega
    · rw [if_neg hv] at hfits
      exact ⟨n, joined, h.count, hfits, h.ended, h.nodup, h.room⟩
  | @thread e lots hne hstep =>
    refine ⟨n, joined, (thread_count hne hstep v).trans h.count, h.fits, ?_, h.nodup, h.room⟩
    intro i hi
    obtain ⟨o, ho, hended⟩ := h.ended i hi
    exact ⟨o, ended_kept hstep ho hended, hended⟩

/-- The joined owners are among those that have returned. -/
theorem joined_le (os : List Owner) (hnodup : joined.Nodup)
    (h : ∀ i ∈ joined, ∃ o, os[i]? = some o ∧ ended o = true) :
    joined.length ≤ os.countP ended := by
  have hsub : joined ⊆ (List.range os.length).filter fun i => os[i]?.any ended := by
    intro i hi
    obtain ⟨o, ho, hended⟩ := h i hi
    obtain ⟨hlt, _⟩ := List.getElem?_eq_some_iff.mp ho
    rw [List.mem_filter]
    exact ⟨List.mem_range.mpr hlt, by rw [ho]; exact hended⟩
  have hlen := (List.subperm_of_subset hnodup hsub).length_le
  have hcount : ((List.range os.length).filter fun i => os[i]?.any ended).length
      = os.countP ended := by
    rw [← List.countP_eq_length_filter]
    clear hlen hsub h hnodup
    induction os with
    | nil => rfl
    | cons o os ih =>
      rw [List.length_cons, List.range_succ_eq_map, List.countP_cons, List.countP_cons,
        List.countP_map, ← ih]
      rfl
  omega

theorem countP_ended (os : List Owner) : os.countP unfinished + os.countP ended = os.length := by
  induction os with
  | nil => rfl
  | cons o os ih =>
    rw [List.countP_cons, List.countP_cons, List.length_cons]
    cases o <;> simp [unfinished, ended] <;> omega

/-- Owners that have not returned are at most the spots that the main thread reckons with. -/
theorem Tracks.unfinished_le (h : Tracks v c p n joined) :
    (p.lots v).owners.countP unfinished ≤ c := by
  have hjoined := joined_le _ h.nodup h.ended
  have hcount := h.count
  have hroom := h.room
  have hall := countP_ended (p.lots v).owners
  omega

/-! ## §4. Nobody is turned away. -/

/-- No owner has found the counter at 0. -/
def Parks (l : Lot) : Prop := ∀ o ∈ l.owners, o ≠ .leaving ∧ o ≠ .left

theorem countP_unfinished (os : List Owner) :
    os.countP unposted + os.countP (· = .waiting) + os.countP (· = .locked)
      ≤ os.countP unfinished := by
  induction os with
  | nil => simp
  | cons o os ih =>
    rw [List.countP_cons, List.countP_cons, List.countP_cons, List.countP_cons]
    cases o <;> simp [unposted, unfinished, ended] <;> omega

/-- The spot of an owner at its test is free: the others take fewer than there are. -/
theorem locked_free {m : Nat} (h : LotInv m l) (hcount : l.owners.countP unfinished ≤ m)
    (ho : l.owners[i]? = some .locked) : 0 < l.mFree := by
  have hunfinished := countP_unfinished l.owners
  have hpos : 0 < l.owners.countP (· = .locked) :=
    List.countP_pos_iff.mpr ⟨_, List.mem_of_getElem? ho, decide_eq_true rfl⟩
  obtain ⟨hspots, hwaits⟩ := h.accounts
  have hvalet : (between l.attendant).toNat ≤ (busy l.attendant).toNat := by
    cases l.attendant <;> decide
  omega

theorem Parks.set (h : Parks l) (i : Nat) (ho : o ≠ .leaving ∧ o ≠ .left) :
    ∀ q ∈ l.owners.set i o, q ≠ .leaving ∧ q ≠ .left := by
  intro q hq
  rcases List.mem_or_eq_of_mem_set hq with hq | rfl
  · exact h q hq
  · exact ho

theorem carOwner_parks (h : Parks l) (ho : l.owners[i]? = some o) (hrun : l.carOwner i o = some l')
    (hfree : o = .locked → 0 < l.mFree) : Parks l' := by
  have hmem := h o (List.mem_of_getElem? ho)
  cases o with
  | arriving =>
    rw [Lot.carOwner] at hrun
    split at hrun <;> cases hrun
    exact h.set i (by simp)
  | locked =>
    cases hrun
    show ∀ q ∈ l.owners.set i (if l.mFree > 0 then .parking else .leaving), _
    rw [if_pos (hfree rfl)]
    exact h.set i (by simp)
  | parking => cases hrun; exact h.set i (by simp)
  | parked => cases hrun; exact h.set i (by simp)
  | posting => cases hrun; exact h.set i (by simp)
  | waiting =>
    rw [Lot.carOwner] at hrun
    split at hrun <;> cases hrun
    exact h.set i (by simp)
  | leaving => exact absurd rfl hmem.1
  | left => exact absurd rfl hmem.2
  | returned => cases hrun

theorem parks_step {s s' : State} {e : CarPark.Event} (h : ∀ v, Parks (s v))
    (hfree : ∀ v, ∀ i : Nat, (s v).owners[i]? = some .locked → 0 < (s v).mFree)
    (hstep : CarPark.Step s e s') : ∀ v, Parks (s' v) := by
  have hupdate : ∀ (u : Vehicle) (l : Lot), Parks l → ∀ v, Parks (Function.update s u l v) := by
    intro u l hl v
    by_cases huv : v = u
    · subst huv
      rwa [Function.update_self]
    · rw [Function.update_of_ne huv]
      exact h v
  cases hstep with
  | @arrive n =>
    refine hupdate _ _ fun o ho => ?_
    rcases List.mem_append.mp ho with ho | ho
    · exact h _ o ho
    · obtain rfl := List.mem_singleton.mp ho
      simp
  | @owner u i o l ho hrun =>
    exact hupdate _ _ (carOwner_parks (h u) ho hrun fun hlocked => hfree u i (hlocked ▸ ho))
  | @attendant n l hn hrun =>
    refine hupdate _ _ fun o ho => ?_
    rw [carAttendant_owners hrun] at ho
    exact h _ o ho

/-- The lots take part in a run of the car park. -/
theorem Step.lots (h : Step p e p') :
    p'.lots = p.lots ∨ ∃ f, CarPark.Step p.lots f p'.lots := by
  cases h with
  | create _ hstep => exact .inr ⟨_, hstep⟩
  | join => exact .inl rfl
  | thread _ hstep => exact .inr ⟨_, hstep⟩

/-- What holds along the runs of a main thread that reckons with `c v` spots of type `v`. -/
structure Simulated (c : Vehicle → Nat) (p : Program) : Prop where
  lots : ∀ v, LotInv (capacity v) (p.lots v)
  tracks : ∀ v, ∃ n joined, Tracks v (c v) p n joined
  parks : c = capacity → ∀ v, Parks (p.lots v)

theorem Simulated.locked {c : Vehicle → Nat} (h : Simulated c p) (hc : c = capacity) (v : Vehicle)
    (i : Nat) (ho : (p.lots v).owners[i]? = some .locked) : 0 < (p.lots v).mFree := by
  obtain ⟨n, joined, htracks⟩ := h.tracks v
  have hle := htracks.unfinished_le
  rw [hc] at hle
  exact locked_free (h.lots v) hle ho

theorem Simulated.step {c : Vehicle → Nat} (h : Simulated c p) (hstep : Step p e p') :
    Simulated c p' := by
  have htracks : ∀ v, ∃ n joined, Tracks v (c v) p' n joined := by
    intro v
    obtain ⟨n, joined, htracks⟩ := h.tracks v
    exact htracks.step hstep
  rcases hstep.lots with hsame | ⟨f, hlots⟩
  · refine ⟨fun v => ?_, htracks, fun hc v => ?_⟩
    · rw [hsame]
      exact h.lots v
    · rw [hsame]
      exact h.parks hc v
  · exact ⟨lotInv_step h.lots hlots, htracks,
      fun hc => parks_step (h.parks hc) (h.locked hc) hlots⟩

variable {actions : List Action} {c : Vehicle → Nat}

theorem simulated_start (hfits : ∀ v, Fits v (c v) actions 0 []) :
    Simulated c ⟨Lot.start, actions⟩ := by
  refine ⟨lotInv_start, fun v => ⟨0, [], rfl, hfits v, ?_, List.nodup_nil, Nat.zero_le _⟩, ?_⟩
  · intro i hi
    cases hi
  · intro _ v o ho
    cases ho

/-- **The main thread comes to its end**: when no step is left, it has done everything, every owner
    has returned and all spots are free. -/
theorem Simulated.ends (h : Simulated c p) (hstuck : ∀ e p', ¬ Step p e p') :
    p.todo = [] ∧ ∀ v, (p.lots v).mFree = capacity v ∧ ∀ o ∈ (p.lots v).owners, ended o = true := by
  have hquiet : Quiet p.lots := by
    intro f s' hf
    cases f with
    | arrive => trivial
    | owner v i => exact absurd (Step.thread (by simp) hf) (hstuck _ _)
    | attendant n => exact absurd (Step.thread (by simp) hf) (hstuck _ _)
  have hended : ∀ v, ∀ o ∈ (p.lots v).owners, ended o = true := by
    intro v o ho
    obtain ⟨i, hi⟩ := List.mem_iff_getElem?.mp ho
    have hsettled := (quiet_returned (h.lots v) hquiet).2 o ho
    cases o with
    | arriving =>
      -- the mutex is free, so an arriving owner could lock it
      have hfree := quiet_free (h.lots v).mutex hquiet
      have hrun : (p.lots v).carOwner i .arriving = some _ := if_pos hfree
      exact absurd (Step.thread (by simp) (.owner hi hrun)) (hstuck _ _)
    | left => rfl
    | returned => rfl
    | locked => exact absurd hsettled (by simp [settled])
    | parking => exact absurd hsettled (by simp [settled])
    | parked => exact absurd hsettled (by simp [settled])
    | posting => exact absurd hsettled (by simp [settled])
    | waiting => exact absurd hsettled (by simp [settled])
    | leaving => exact absurd hsettled (by simp [settled])
  refine ⟨?_, fun v => ⟨(quiet_returned (h.lots v) hquiet).1, hended v⟩⟩
  cases htodo : p.todo with
  | nil => rfl
  | cons a rest =>
    exfalso
    cases a with
    | create n => exact hstuck _ _ (.create htodo .arrive)
    | join v i =>
      obtain ⟨n, joined, htracks⟩ := h.tracks v
      have hfits := htracks.fits
      rw [htodo, Fits, if_pos rfl, ← htracks.count] at hfits
      have hi := List.getElem?_eq_getElem hfits.1
      exact hstuck _ _ (.join htodo hi (hended v _ (List.mem_of_getElem? hi)))

/-- **Every run of a main thread ends**, if it joins what it has created: a run is at most as long as
    the work, and where no step is left everything is done. -/
theorem runs_end (actions : List Action) (c : Vehicle → Nat) (es : List Event) (p : Program)
    (hfits : ∀ v, Fits v (c v) actions 0 [])
    (hrun : (programSystem actions).Exec ⟨Lot.start, actions⟩ es p) :
    es.length ≤ (actions.map actionWork).sum ∧
      ((∃ e p', Step p e p') ∨ (p.todo = [] ∧
        ∀ v, (p.lots v).mFree = capacity v ∧ ∀ o ∈ (p.lots v).owners, ended o = true)) := by
  have hstart := simulated_start hfits
  have hsim : Simulated c p :=
    hrun.invariant (fun _ _ _ h (hstep : Step _ _ _) => h.step hstep) hstart
  have hlen := hrun.variant (I := fun _ => True) (μ := work)
    (fun _ _ _ _ hstep => ⟨trivial, (step_work hstep).1⟩) trivial
  have hwork : work ⟨Lot.start, actions⟩ = (actions.map actionWork).sum := by
    simp [work, lotWork, Lot.start, attendantWork]
  refine ⟨by omega, ?_⟩
  by_cases hstuck : ∃ e p', Step p e p'
  · exact .inl hstuck
  · refine .inr (hsim.ends fun e p' hstep => hstuck ⟨e, p', hstep⟩)

/-- `main` joins the owners in the order of their numbers, counted down. -/
theorem simulation_fits (v : Vehicle) : Fits v (capacity v) simulateNoTemporarySpots 0 [] := by
  cases v with
  | pickup => simp [simulateNoTemporarySpots, joinOwners, joinOwner, Fits, List.replicate,
      ownerVehicle, capacity, MAX_PICKUPS, MAX_AUTOMOBILES]
  | automobile => simp [simulateNoTemporarySpots, joinOwners, joinOwner, Fits, List.replicate,
      ownerVehicle, capacity, MAX_PICKUPS, MAX_AUTOMOBILES]

/-- One pickup has arrived. -/
def oneOwner : State := Function.update Lot.start .pickup (Lot.start .pickup).arrive

/-- The first pickup is created. -/
theorem runs_end_created : [Event.main].length ≤ (simulateNoTemporarySpots.map actionWork).sum ∧
    ((∃ e p', Step ⟨oneOwner, simulateNoTemporarySpots.tail⟩ e p') ∨
      (simulateNoTemporarySpots.tail = [] ∧ ∀ v, (oneOwner v).mFree = capacity v ∧
        ∀ o ∈ (oneOwner v).owners, ended o = true)) :=
  runs_end simulateNoTemporarySpots capacity [.main] ⟨oneOwner, simulateNoTemporarySpots.tail⟩
    simulation_fits (.cons (.create rfl (@CarPark.Step.arrive Lot.start 0)) (.nil _))

/-- **Nobody is turned away** by a main thread that lets fewer owners wait than there are spots. -/
theorem nobody_turned_away (actions : List Action) (p : Program) (v : Vehicle)
    (hfits : ∀ v, Fits v (capacity v) actions 0 [])
    (h : (programSystem actions).Reachable p) : Parks (p.lots v) := by
  have hsim : Simulated capacity p := by
    refine h.invariant ?_ fun _ _ _ h (hstep : Step _ _ _) => h.step hstep
    rintro p rfl
    exact simulated_start hfits
  exact hsim.parks rfl v

theorem nobody_turned_away_created : Parks (oneOwner .pickup) :=
  nobody_turned_away simulateNoTemporarySpots ⟨oneOwner, simulateNoTemporarySpots.tail⟩ .pickup
    simulation_fits (.next (.start rfl) (.create rfl (@CarPark.Step.arrive Lot.start 0)))

/-! ## §5. The simulation. -/

/-- Runs in which nobody is turned away use up the work step by step. -/
theorem Simulated.exec {es : List Event} (h : Simulated capacity p)
    (hrun : (programSystem actions).Exec p es p') :
    Simulated capacity p' ∧ es.length + work p' = work p := by
  induction hrun with
  | nil p => simpa using h
  | @cons p q t e es hstep _ ih =>
    have hstep : Step p e q := hstep
    have hone := (step_work hstep).2 (h.locked rfl)
    obtain ⟨hend, hwork⟩ := ih (h.step hstep)
    rw [List.length_cons]
    exact ⟨hend, by omega⟩

/-- The creations of owners of a type. -/
def creations (v : Vehicle) : List Action → Nat
  | [] => 0
  | .create n :: rest => (if ownerVehicle n = v then 1 else 0) + creations v rest
  | .join _ _ :: rest => creations v rest

theorem step_creations (hstep : Step p e p') (v : Vehicle) :
    (p'.lots v).owners.length + creations v p'.todo
      = (p.lots v).owners.length + creations v p.todo := by
  cases hstep with
  | @create n rest lots htodo hstep =>
    cases hstep
    rw [htodo, creations]
    by_cases hv : ownerVehicle n = v
    · subst hv
      rw [if_pos rfl]
      simp only [Function.update_self, Lot.arrive, List.length_append, List.length_singleton]
      omega
    · rw [if_neg hv]
      simp only [Function.update_of_ne (Ne.symm hv)]
      omega
  | join htodo => rw [htodo, creations]
  | thread hne hstep => rw [thread_count hne hstep]

theorem exec_creations {es : List Event} (hrun : (programSystem actions).Exec p es p')
    (v : Vehicle) : (p'.lots v).owners.length + creations v p'.todo
      = (p.lots v).owners.length + creations v p.todo := by
  induction hrun with
  | nil _ => rfl
  | cons hstep _ ih => exact ih.trans (step_creations hstep v)

/-- **`simulateNoTemporarySpots` shows no full lot.**  Every run has 182 steps, and at its end all 14
    owners have been parked by a valet; the extra ones find every spot free. -/
theorem simulation_ends (es : List Event) (p : Program)
    (hrun : (programSystem simulateNoTemporarySpots).Exec ⟨Lot.start, simulateNoTemporarySpots⟩
      es p) :
    es.length + work p = 182 ∧ (∀ v, Parks (p.lots v)) ∧
      ((∃ e p', Step p e p') ∨ (p.todo = [] ∧ ∀ v, (p.lots v).mFree = capacity v ∧
        (p.lots v).owners = List.replicate (capacity v + 1) .returned)) := by
  obtain ⟨hsim, hwork⟩ := (simulated_start simulation_fits).exec hrun
  refine ⟨hwork, hsim.parks rfl, ?_⟩
  by_cases hstuck : ∃ e p', Step p e p'
  · exact .inl hstuck
  · obtain ⟨htodo, hended⟩ := hsim.ends fun e p' hstep => hstuck ⟨e, p', hstep⟩
    refine .inr ⟨htodo, fun v => ⟨(hended v).1, ?_⟩⟩
    have hcount : (p.lots v).owners.length + creations v p.todo
        = 0 + creations v simulateNoTemporarySpots := exec_creations hrun v
    rw [htodo] at hcount
    have hcreations : creations v simulateNoTemporarySpots = capacity v + 1 := by
      cases v <;> rfl
    rw [List.eq_replicate_iff]
    constructor
    · rw [hcreations, creations] at hcount
      omega
    · intro o ho
      have hreturned := (hended v).2 o ho
      have hparked := hsim.parks rfl v o ho
      cases o <;> simp_all [ended]

/-- The first pickup is created. -/
theorem simulation_ends_created : [Event.main].length
      + work ⟨oneOwner, simulateNoTemporarySpots.tail⟩ = 182 ∧ (∀ v, Parks (oneOwner v)) ∧
    ((∃ e p', Step ⟨oneOwner, simulateNoTemporarySpots.tail⟩ e p') ∨
      (simulateNoTemporarySpots.tail = [] ∧ ∀ v, (oneOwner v).mFree = capacity v ∧
        (oneOwner v).owners = List.replicate (capacity v + 1) .returned)) :=
  simulation_ends [.main] ⟨oneOwner, simulateNoTemporarySpots.tail⟩
    (.cons (.create rfl (@CarPark.Step.arrive Lot.start 0)) (.nil _))

end SystemOS.Parking.Simulation
