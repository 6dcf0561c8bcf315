/-
  SystemOS.PideShop.WakeUps — when the wake-ups of the pide shop reach the thread that is needed.

  `handle_client` announces an order with a signal, and a signal may wake a delivery person although
  a cook is needed; every other critical section that makes work broadcasts.  `SignalReaches` is the
  condition under which the announcement is not lost.

  Main results:
    * `wakeups_suffice`  — in the runs whose announcements all meet the condition the shop is never
      stuck, and every announcement that misses it can be followed by a stuck shop.
    * `shop_stuck`       — one cook, one delivery person, one order: stuck.
-/
import SystemOS.PideShop.Server

namespace SystemOS.PideShop.WakeUps

open SystemOS.Lib.Transition SystemOS.PideShop.Server

variable {c : Config} {s s' : Shop} {l : Label}

/-! ## §1. What the scans find. -/

theorem findOrder_none {orders : Nat → Order} : ∀ {fuel i : Nat},
    findOrder orders fuel i = none → ∀ j, i ≤ j → j < i + fuel → claimable (orders j) = false
  | 0, _, _, _, _, _ => by omega
  | fuel + 1, i, h, j, hij, hj => by
      unfold findOrder at h
      split at h
      · cases h
      · next hclaim =>
        rcases Nat.eq_or_lt_of_le hij with rfl | hlt
        · simpa using hclaim
        · exact findOrder_none h j hlt (by omega)

/-- A delivery person's list only grows. -/
theorem takeOrders_grows {d : Nat} : ∀ {fuel i : Nat} {orders : Nat → Order} {p : DeliveryPerson},
    p.deliveries ≠ [] → (takeOrders d fuel i orders p).2.deliveries ≠ []
  | 0, _, _, _, h => h
  | fuel + 1, i, orders, p, h => by
      unfold takeOrders
      split
      · simp only
        split
        · exact fun hnil => h (List.append_eq_nil_iff.mp hnil).1
        · exact takeOrders_grows fun hnil => h (List.append_eq_nil_iff.mp hnil).1
      · exact takeOrders_grows h

/-- A scan that comes back empty-handed has changed nothing and has met nothing to take. -/
theorem takeOrders_nil {d : Nat} : ∀ {fuel i : Nat} {orders : Nat → Order} {p : DeliveryPerson},
    p.busy = false → (takeOrders d fuel i orders p).2.deliveries = [] →
      takeOrders d fuel i orders p = (orders, p)
        ∧ ∀ j, i ≤ j → j < i + fuel → takeable (orders j) = false
  | 0, _, _, _, _, _ => ⟨rfl, fun _ _ _ => by omega⟩
  | fuel + 1, i, orders, p, hb, h => by
      unfold takeOrders at h ⊢
      split at h
      · -- an order was taken, so the list is not empty
        exfalso
        simp only at h
        split at h
        · exact absurd (List.append_eq_nil_iff.mp h).2 (List.cons_ne_nil _ _)
        · exact takeOrders_grows (by simp) h
      · next htake =>
        rw [if_neg htake]
        obtain ⟨heq, hrest⟩ := takeOrders_nil hb h
        refine ⟨heq, fun j hij hj => ?_⟩
        rcases Nat.eq_or_lt_of_le hij with rfl | hlt
        · simpa [hb] using htake
        · exact hrest j hlt (by omega)

/-- A scan with nothing to take comes back empty-handed. -/
theorem takeOrders_of_none {d : Nat} : ∀ {fuel i : Nat} {orders : Nat → Order} {p : DeliveryPerson},
    (∀ j, i ≤ j → j < i + fuel → takeable (orders j) = false) →
      takeOrders d fuel i orders p = (orders, p)
  | 0, _, _, _, _ => rfl
  | fuel + 1, i, orders, p, h => by
      unfold takeOrders
      rw [if_neg (by simp [h i (Nat.le_refl i) (by omega)])]
      exact takeOrders_of_none fun j hij hj => h j (by omega) (by omega)

/-! ## §2. The condition and the invariant. -/

/-- An accepted order waits for a cook. -/
def Unclaimed (s : Shop) : Prop := ∃ j < s.order_count, claimable (s.orders j) = true

/-- A ready order waits for a delivery person. -/
def Untaken (s : Shop) : Prop := ∃ j < s.order_count, takeable (s.orders j) = true

def SomeCookAwake (c : Config) (s : Shop) : Prop :=
  ∃ i < c.cook_pool_size, s.cooks i ≠ .waiting

def SomeoneCarrying (c : Config) (s : Shop) : Prop :=
  ∃ d < c.delivery_pool_size, ∃ k, s.deliverers d = .carrying k

/-- Everybody is blocked although there is work. -/
def Stuck (c : Config) (s : Shop) : Prop :=
  (∀ i < c.cook_pool_size, s.cooks i = .waiting)
    ∧ (∀ d < c.delivery_pool_size, s.deliverers d = .waiting) ∧ (Unclaimed s ∨ Untaken s)

/-- Some thread will look for unclaimed orders again: a cook that is not blocked, or a delivery
    person that carries orders, or is about to, and will broadcast when it is back. -/
def CookWillLook (c : Config) (s : Shop) : Prop :=
  SomeCookAwake c s ∨ SomeoneCarrying c s ∨ Untaken s

/-- The announcement of an order does not go to a delivery person when a cook is needed. -/
def SignalReaches (c : Config) (s : Shop) : Label → Prop
  | .order _ _ (some (.delivery _)) => CookWillLook c s
  | _ => True

/-- Delivery persons who carry nothing are not busy. -/
def Idle (s : Shop) : Prop :=
  ∀ d, (∀ k, s.deliverers d ≠ .carrying k) → s.persons d = ⟨false, []⟩

structure WakeInv (c : Config) (s : Shop) : Prop where
  claims : Unclaimed s → CookWillLook c s
  ready : Untaken s → ∃ d < c.delivery_pool_size, s.deliverers d ≠ .waiting

theorem WakeInv.not_stuck (h : WakeInv c s) : ¬ Stuck c s := by
  intro hstuck
  obtain ⟨hcooks, hdel, hwork⟩ := hstuck
  have huntaken : ¬ Untaken s := by
    intro hu
    obtain ⟨d, hd, hne⟩ := h.ready hu
    exact hne (hdel d hd)
  rcases hwork with hclaim | hu
  · rcases h.claims hclaim with ⟨i, hi, hne⟩ | ⟨d, hd, k, hk⟩ | hu
    · exact hne (hcooks i hi)
    · rw [hdel d hd] at hk
      cases hk
    · exact huntaken hu
  · exact huntaken hu

/-! ## §3. The moves. -/

theorem setCook_self (s : Shop) (i : Nat) (a : CookAt) : (s.setCook i a).cooks i = a :=
  Function.update_self ..

theorem setCook_of_ne (s : Shop) {i j : Nat} (a : CookAt) (h : j ≠ i) :
    (s.setCook i a).cooks j = s.cooks j := Function.update_of_ne h ..

theorem setDelivery_self (s : Shop) (d : Nat) (p : DeliveryPerson) (a : DeliveryAt) :
    (s.setDelivery d p a).deliverers d = a := Function.update_self ..

theorem setDelivery_of_ne (s : Shop) {d e : Nat} (p : DeliveryPerson) (a : DeliveryAt)
    (h : e ≠ d) : (s.setDelivery d p a).deliverers e = s.deliverers e := Function.update_of_ne h ..

theorem setDelivery_person (s : Shop) (d : Nat) (p : DeliveryPerson) (a : DeliveryAt) :
    (s.setDelivery d p a).persons d = p := Function.update_self ..

theorem setDelivery_person_of_ne (s : Shop) {d e : Nat} (p : DeliveryPerson) (a : DeliveryAt)
    (h : e ≠ d) : (s.setDelivery d p a).persons e = s.persons e := Function.update_of_ne h ..

/-- Where a cook is after another, or the same, has moved, -/
theorem setCook_cases {i j : Nat} {a b : CookAt} (h : (s.setCook i a).cooks j = b) :
    j = i ∧ a = b ∨ j ≠ i ∧ s.cooks j = b := by
  by_cases hji : j = i
  · subst hji
    exact .inl ⟨rfl, (setCook_self s j a).symm.trans h⟩
  · exact .inr ⟨hji, (setCook_of_ne s a hji).symm.trans h⟩

/-- and where a delivery person is, with which list. -/
theorem setDelivery_cases {d e : Nat} {p : DeliveryPerson} {a b : DeliveryAt}
    (h : (s.setDelivery d p a).deliverers e = b) :
    e = d ∧ a = b ∧ (s.setDelivery d p a).persons e = p
      ∨ e ≠ d ∧ s.deliverers e = b ∧ (s.setDelivery d p a).persons e = s.persons e := by
  by_cases hed : e = d
  · subst hed
    exact .inl ⟨rfl, (setDelivery_self s e p a).symm.trans h, setDelivery_person s e p a⟩
  · exact .inr ⟨hed, (setDelivery_of_ne s p a hed).symm.trans h, setDelivery_person_of_ne s p a hed⟩

theorem broadcast_cook (s : Shop) (i : Nat) : (broadcast s).cooks i ≠ .waiting := by
  cases h : s.cooks i <;> simp [broadcast, h]

theorem broadcast_deliverer (s : Shop) (d : Nat) : (broadcast s).deliverers d ≠ .waiting := by
  cases h : s.deliverers d <;> simp [broadcast, h]

theorem broadcast_carrying {s : Shop} {d k : Nat} (h : s.deliverers d = .carrying k) :
    (broadcast s).deliverers d = .carrying k := by
  simp [broadcast, h]

/-- Waking a thread blocks nobody. -/
theorem wake_cook {t : Thread} {i : Nat} (h : s.cooks i ≠ .waiting) :
    (wake s t).cooks i ≠ .waiting := by
  cases t with
  | cook j =>
    intro hw
    rcases setCook_cases hw with ⟨_, heq⟩ | ⟨_, hw⟩
    · cases heq
    · exact h hw
  | delivery d => exact h

theorem wake_deliverer {t : Thread} {d : Nat} (h : s.deliverers d ≠ .waiting) :
    (wake s t).deliverers d ≠ .waiting := by
  cases t with
  | cook i => exact h
  | delivery e =>
    intro hw
    rcases setDelivery_cases hw with ⟨_, heq, _⟩ | ⟨_, hw, _⟩
    · cases heq
    · exact h hw

/-- A blocked thread that is woken was not carrying. -/
theorem wake_carrying {t : Thread} {d k : Nat} (ht : waits c s t)
    (h : s.deliverers d = .carrying k) : (wake s t).deliverers d = .carrying k := by
  cases t with
  | cook i => exact h
  | delivery e =>
    have hde : d ≠ e := by
      intro heq
      subst heq
      rw [ht.2] at h
      cases h
    exact (setDelivery_of_ne s _ _ hde).trans h

/-- Waking a thread does not touch the table. -/
theorem unclaimed_wake (s : Shop) (t : Thread) : Unclaimed (wake s t) ↔ Unclaimed s := by
  cases t <;> rfl

theorem untaken_wake (s : Shop) (t : Thread) : Untaken (wake s t) ↔ Untaken s := by
  cases t <;> rfl

theorem wake_willLook {t : Thread} (ht : waits c s t) (h : CookWillLook c s) :
    CookWillLook c (wake s t) := by
  rcases h with ⟨i, hi, hne⟩ | ⟨d, hd, k, hk⟩ | hu
  · exact .inl ⟨i, hi, wake_cook hne⟩
  · exact .inr (.inl ⟨d, hd, k, wake_carrying ht hk⟩)
  · exact .inr (.inr ((untaken_wake s t).mpr hu))

theorem wake_inv {t : Thread} (ht : waits c s t) (h : WakeInv c s) : WakeInv c (wake s t) where
  claims := fun hc => wake_willLook ht (h.claims ((unclaimed_wake s t).mp hc))
  ready := by
    intro hu
    obtain ⟨d, hd, hne⟩ := h.ready ((untaken_wake s t).mp hu)
    exact ⟨d, hd, wake_deliverer hne⟩

/-! ## §4. Every step keeps the invariant. -/

/-- A new order is not ready, and the old ones are as they were. -/
theorem untaken_handle_client {x y : Int} (h : Untaken (handle_client s x y)) : Untaken s := by
  obtain ⟨j, hj, hu⟩ := h
  have hj' : j < s.order_count + 1 := hj
  have hu' : takeable (Function.update s.orders s.order_count (newOrder s.order_count x y) j)
      = true := hu
  by_cases hjc : j = s.order_count
  · subst hjc
    rw [Function.update_self] at hu'
    simp [takeable, newOrder] at hu'
  · rw [Function.update_of_ne hjc] at hu'
    exact ⟨j, by omega, hu'⟩

theorem handle_client_untaken (x y : Int) (h : Untaken s) : Untaken (handle_client s x y) := by
  obtain ⟨j, hj, hu⟩ := h
  refine ⟨j, Nat.lt_succ_of_lt hj, ?_⟩
  show takeable (Function.update s.orders s.order_count _ j) = true
  rw [Function.update_of_ne (by omega)]
  exact hu

/-- **The announcement of an order.** -/
theorem order_inv {c : Staffed} {x y : Int} {t : Option Thread} (h : WakeInv c s)
    (hreach : SignalReaches c s (.order x y t)) (hsig : Signal c (handle_client s x y) t s') :
    WakeInv c s' := by
  cases hsig with
  | @wakes t ht =>
    have hwill : CookWillLook c (wake (handle_client s x y) t) := by
      cases t with
      | cook i => exact .inl ⟨i, ht.1, fun hw => absurd ((setCook_self _ i _).symm.trans hw) nofun⟩
      | delivery d =>
        -- the signal is lost on this thread, but somebody else will look
        have hlook : CookWillLook c s := hreach
        exact wake_willLook ht (hlook.imp id (Or.imp id (handle_client_untaken x y)))
    refine ⟨fun _ => hwill, fun hu => ?_⟩
    obtain ⟨d, hd, hne⟩ := h.ready (untaken_handle_client ((untaken_wake _ t).mp hu))
    exact ⟨d, hd, wake_deliverer (s := handle_client s x y) hne⟩
  | nobody hnone =>
    refine ⟨fun _ => .inl ⟨0, c.cooks_pos, fun hw => hnone (.cook 0) ⟨c.cooks_pos, hw⟩⟩, fun _ => ?_⟩
    exact ⟨0, c.deliveries_pos, fun hw => hnone (.delivery 0) ⟨c.deliveries_pos, hw⟩⟩

theorem takeable_claim (s : Shop) (i j : Nat) :
    takeable ((claim s i).orders j) = takeable (s.orders j) := by
  show takeable (Function.update s.orders i _ j) = _
  by_cases hji : j = i
  · subst hji
    rw [Function.update_self]
    rfl
  · rw [Function.update_of_ne hji]

theorem cookStep_inv {c : Staffed} {i : Nat} (hi : i < c.cook_pool_size) (h : WakeInv c s)
    (hst : CookStep s i s') : WakeInv c s' := by
  cases hst with
  | @claim j _ _ =>
    refine ⟨fun _ => .inl ⟨i, hi, fun hw => absurd ((setCook_self _ i _).symm.trans hw) nofun⟩, ?_⟩
    intro hsome
    obtain ⟨k, hk, hu⟩ := hsome
    exact h.ready ⟨k, hk, (takeable_claim s j k).symm.trans hu⟩
  | wait _ hnone =>
    refine ⟨?_, h.ready⟩
    intro hsome
    obtain ⟨j, hj, hc⟩ := hsome
    have := findOrder_none hnone j (Nat.zero_le j) (by rw [Nat.zero_add]; exact hj)
    exact absurd ((congrArg (· = true) this).mp hc) (by decide)
  | relock _ =>
    exact ⟨fun _ => .inl ⟨i, hi, fun hw => absurd ((setCook_self _ i _).symm.trans hw) nofun⟩,
      h.ready⟩
  | ready _ =>
    exact ⟨fun _ => .inl ⟨i, hi, broadcast_cook _ i⟩,
      fun _ => ⟨0, c.deliveries_pos, broadcast_deliverer _ 0⟩⟩

/-- A delivery person that comes back empty-handed has changed nothing, and nothing is ready. -/
theorem scan_nil {d : Nat} {orders : Nat → Order} {p : DeliveryPerson} (hidle : Idle s)
    (hscan : s.deliverers d = .scanning)
    (htake : takeOrders d s.order_count 0 s.orders (s.persons d) = (orders, p))
    (hnil : p.deliveries = []) : orders = s.orders ∧ p = s.persons d ∧ ¬ Untaken s := by
  have hperson := hidle d (by rw [hscan]; exact nofun)
  have hempty : (takeOrders d s.order_count 0 s.orders (s.persons d)).2.deliveries = [] := by
    rw [htake]
    exact hnil
  obtain ⟨heq, hnone⟩ := takeOrders_nil (by rw [hperson]) hempty
  rw [htake] at heq
  obtain ⟨rfl, rfl⟩ := Prod.mk.inj heq
  refine ⟨rfl, rfl, fun hsome => ?_⟩
  obtain ⟨j, hj, hu⟩ := hsome
  rw [hnone j (Nat.zero_le j) (by omega)] at hu
  cases hu

/-- A delivery person that carries nothing can change its place: the others still carry. -/
theorem willLook_setDelivery {d : Nat} (p : DeliveryPerson) (a : DeliveryAt)
    (hd : ∀ k, s.deliverers d ≠ .carrying k) (h : CookWillLook c s) :
    CookWillLook c (s.setDelivery d p a) := by
  rcases h with hawake | ⟨e, he, k, hk⟩ | hu
  · exact .inl hawake
  · have hed : e ≠ d := fun heq => hd k (heq ▸ hk)
    exact .inr (.inl ⟨e, he, k, (setDelivery_of_ne s p a hed).trans hk⟩)
  · exact .inr (.inr hu)

theorem deliveryStep_inv {c : Staffed} {d : Nat} (hd : d < c.delivery_pool_size) (hidle : Idle s)
    (h : WakeInv c s) (hst : DeliveryStep s d s') : WakeInv c s' := by
  have hcarry : ∀ {t : Shop} {p k}, CookWillLook c (t.setDelivery d p (.carrying k)) :=
    fun {t p k} => .inr (.inl ⟨d, hd, k, setDelivery_self t d p _⟩)
  have hne : ∀ {t : Shop} {p a}, a ≠ DeliveryAt.waiting →
      ∃ e < c.delivery_pool_size, (t.setDelivery d p a).deliverers e ≠ .waiting :=
    fun {t p a} ha => ⟨d, hd, fun hw => ha ((setDelivery_self t d p a).symm.trans hw)⟩
  cases hst with
  | take _ _ _ => exact ⟨fun _ => hcarry, fun _ => hne nofun⟩
  | wait hscan htake hnil =>
    -- nothing to take: the table is the same, so a claimable order was one before
    obtain ⟨rfl, rfl, hno⟩ := scan_nil hidle hscan htake hnil
    refine ⟨fun hc => ?_, fun hu => absurd hu hno⟩
    exact willLook_setDelivery _ _ (by rw [hscan]; exact nofun) (h.claims hc)
  | relock hwoken =>
    refine ⟨fun hc => ?_, fun _ => hne nofun⟩
    exact willLook_setDelivery _ _ (by rw [hwoken]; exact nofun) (h.claims hc)
  | deliver _ _ => exact ⟨fun _ => hcarry, fun _ => hne nofun⟩
  | back _ _ =>
    exact ⟨fun _ => .inl ⟨0, c.cooks_pos, broadcast_cook _ 0⟩,
      fun _ => ⟨0, c.deliveries_pos, broadcast_deliverer _ 0⟩⟩

theorem step_inv {c : Staffed} (hidle : Idle s) (h : WakeInv c s) (hreach : SignalReaches c s l)
    (hst : Step c s l s') : WakeInv c s' := by
  cases hst with
  | accept _ => exact ⟨h.claims, h.ready⟩
  | order x y _ hsig => exact order_inv h hreach hsig
  | refused _ => exact h
  | cook hi hst => exact cookStep_inv hi h hst
  | delivery hd hst => exact deliveryStep_inv hd hidle h hst
  | spurious ht => exact wake_inv ht h

/-! ## §5. Delivery persons who carry nothing. -/

theorem Idle.setDelivery (h : Idle s) (d : Nat) {p : DeliveryPerson} {a : DeliveryAt}
    (hp : (∀ k, a ≠ .carrying k) → p = ⟨false, []⟩) : Idle (s.setDelivery d p a) := by
  intro e he
  by_cases hed : e = d
  · subst hed
    rw [setDelivery_person]
    exact hp fun k hk => he k ((setDelivery_self s e p a).trans hk)
  · rw [setDelivery_person_of_ne s p a hed]
    exact h e fun k hk => he k ((setDelivery_of_ne s p a hed).trans hk)

theorem Idle.broadcast (h : Idle s) : Idle (broadcast s) :=
  fun d hd => h d fun k hk => hd k (broadcast_carrying hk)

theorem Idle.wake {t : Thread} (h : Idle s) (ht : waits c s t) : Idle (wake s t) := by
  cases t with
  | cook i => exact h
  | delivery d => exact h.setDelivery d fun _ => h d (by rw [ht.2]; exact nofun)

theorem idle_deliveryStep {d : Nat} (h : Idle s) (hst : DeliveryStep s d s') : Idle s' := by
  have hother : ∀ {t : Shop}, t.persons = s.persons → t.deliverers = s.deliverers → Idle t := by
    intro t hp hd e he
    rw [hp]
    exact h e (by rw [← hd]; exact he)
  cases hst with
  | take _ _ _ => exact (hother rfl rfl).setDelivery d fun hk => absurd rfl (hk 0)
  | wait hscan htake hnil =>
    obtain ⟨rfl, rfl, _⟩ := scan_nil h hscan htake hnil
    exact h.setDelivery d fun _ => h d (by rw [hscan]; exact nofun)
  | relock hwoken => exact h.setDelivery d fun _ => h d (by rw [hwoken]; exact nofun)
  | @deliver k j _ _ =>
    refine Idle.setDelivery (hother ?_ ?_) d fun hk => absurd rfl (hk (k + 1)) <;>
    · unfold deliver_order check_and_notify_all_delivered
      split <;> rfl
  | back _ _ => exact (h.setDelivery d fun _ => rfl).broadcast

theorem idle_step (h : Idle s) (hst : Step c s l s') : Idle s' := by
  cases hst with
  | accept _ => exact h
  | order _ _ _ hsig =>
    have hnew : ∀ x y, Idle (handle_client s x y) := fun _ _ => h
    cases hsig with
    | wakes ht => exact (hnew _ _).wake ht
    | nobody _ => exact hnew _ _
  | refused _ => exact h
  | cook _ hst =>
    cases hst with
    | ready _ => exact Idle.broadcast h
    | _ => exact h
  | delivery _ hst => exact idle_deliveryStep h hst
  | spurious ht => exact h.wake ht

theorem idle_reachable (h : (shopSystem c).Reachable s) : Idle s := by
  refine h.invariant ?_ fun _ _ _ => idle_step
  intro s hinit d _
  obtain ⟨orders, rfl⟩ := hinit
  rfl

/-! ## §6. A lost announcement. -/

/-- Nobody carries anything and there is nothing to take. -/
def NothingToTake (c : Config) (s : Shop) : Prop :=
  ¬ Untaken s ∧ ∀ d < c.delivery_pool_size, ∀ k, s.deliverers d ≠ .carrying k

/-- Then a delivery person that is not blocked looks at the table and blocks. -/
theorem deliverer_blocks {d : Nat} (hd : d < c.delivery_pool_size) (hidle : Idle s)
    (h : NothingToTake c s) : ∃ es s', (shopSystem c).Exec s es s' ∧ s'.orders = s.orders
      ∧ s'.order_count = s.order_count ∧ s'.cooks = s.cooks ∧ s'.deliverers d = .waiting
      ∧ ∀ e ≠ d, s'.deliverers e = s.deliverers e := by
  have hperson := hidle d (h.2 d hd)
  -- the scan itself
  have hscan : ∀ t : Shop, t.orders = s.orders → t.order_count = s.order_count →
      t.persons d = s.persons d → t.deliverers d = .scanning →
      Step c t (.run (.delivery d)) (t.setDelivery d (t.persons d) .waiting) := by
    intro t ho hc hp hat
    have hnone : takeOrders d t.order_count 0 t.orders (t.persons d)
        = (t.orders, t.persons d) := by
      refine takeOrders_of_none fun j _ hj => ?_
      rw [ho]
      by_contra hcon
      exact h.1 ⟨j, by omega, by simpa using hcon⟩
    refine .delivery hd (.wait hat hnone ?_)
    rw [hp, hperson]
  cases hat : s.deliverers d with
  | waiting => exact ⟨[], s, .nil s, rfl, rfl, rfl, hat, fun _ _ => rfl⟩
  | scanning =>
    exact ⟨_, _, .cons (hscan s rfl rfl rfl hat) (.nil _), rfl, rfl, rfl,
      setDelivery_self s d _ _, fun e he => setDelivery_of_ne s _ _ he⟩
  | woken =>
    have hrelock : Step c s (.run (.delivery d)) (s.setDelivery d (s.persons d) .scanning) :=
      .delivery hd (.relock hat)
    refine ⟨_, _, .cons hrelock (.cons (hscan _ rfl rfl (setDelivery_person s d _ _)
      (setDelivery_self s d _ _)) (.nil _)), rfl, rfl, rfl, setDelivery_self _ d _ _, ?_⟩
    intro e he
    rw [setDelivery_of_ne _ _ _ he, setDelivery_of_ne s _ _ he]
  | carrying k => exact absurd hat (h.2 d hd k)

/-- One after the other, all delivery persons block. -/
theorem deliverers_block (hidle : Idle s) (h : NothingToTake c s) :
    ∀ n, n ≤ c.delivery_pool_size → ∃ es s', (shopSystem c).Exec s es s' ∧ s'.orders = s.orders
      ∧ s'.order_count = s.order_count ∧ s'.cooks = s.cooks
      ∧ (∀ d < n, s'.deliverers d = .waiting) ∧ ∀ e, n ≤ e → s'.deliverers e = s.deliverers e
  | 0, _ => ⟨[], s, .nil s, rfl, rfl, rfl, fun _ hd => absurd hd (Nat.not_lt_zero _),
      fun _ _ => rfl⟩
  | n + 1, hn => by
      obtain ⟨es, t, hrun, ho, hc, hcooks, hdone, hrest⟩ := deliverers_block hidle h n (by omega)
      have hidle' : Idle t := hrun.invariant (fun _ _ _ => idle_step) hidle
      have hnone : NothingToTake c t := by
        refine ⟨?_, fun d hd k => ?_⟩
        · intro hsome
          obtain ⟨j, hj, hu⟩ := hsome
          exact h.1 ⟨j, hc ▸ hj, ho ▸ hu⟩
        · rcases Nat.lt_or_ge d n with hlt | hge
          · rw [hdone d hlt]
            exact nofun
          · rw [hrest d hge]
            exact h.2 d hd k
      obtain ⟨fs, u, hrun', ho', hc', hcooks', hnow, hother⟩ :=
        deliverer_blocks (show n < c.delivery_pool_size by omega) hidle' hnone
      refine ⟨es ++ fs, u, hrun.append hrun', ho'.trans ho, hc'.trans hc, hcooks'.trans hcooks,
        fun d hd => ?_, fun e he => ?_⟩
      · by_cases hdn : d = n
        · rw [hdn]
          exact hnow
        · rw [hother d hdn]
          exact hdone d (by omega)
      · rw [hother e (by omega)]
        exact hrest e (by omega)

/-- **A lost announcement.**  When the signal wakes a delivery person although no thread will look
    for unclaimed orders again, the shop can get stuck. -/
theorem stuck_of_lost_signal {x y : Int} {t : Option Thread} (hidle : Idle s)
    (hst : Step c s (.order x y t) s') (hlost : ¬ SignalReaches c s (.order x y t)) :
    ∃ es s'', (shopSystem c).Exec s' es s'' ∧ Stuck c s'' := by
  cases hst with
  | order _ _ hroom hsig =>
  cases hsig with
  | nobody _ => exact absurd trivial hlost
  | @wakes t ht =>
  cases t with
  | cook i => exact absurd trivial hlost
  | delivery d =>
    obtain ⟨hcooks, hrest⟩ := not_or.mp hlost
    obtain ⟨hcarry, huntaken⟩ := not_or.mp hrest
    have hnothing : NothingToTake c (wake (handle_client s x y) (.delivery d)) := by
      refine ⟨fun hu => huntaken (untaken_handle_client hu), fun e he k hk => ?_⟩
      rcases setDelivery_cases hk with ⟨_, heq, _⟩ | ⟨_, hk, _⟩
      · cases heq
      · exact hcarry ⟨e, he, k, hk⟩
    have hidle' : Idle (handle_client s x y) := hidle
    -- every cook sleeps already; once the delivery persons do, nobody is left to look
    obtain ⟨es, u, hrun, ho, hc, hc', hblocked, _⟩ :=
      deliverers_block (hidle'.wake ht) hnothing _ (Nat.le_refl _)
    refine ⟨es, u, hrun, fun i hi => ?_, hblocked, .inl ⟨s.order_count, ?_, ?_⟩⟩
    · rw [hc']
      by_contra hne
      exact hcooks ⟨i, hi, hne⟩
    · rw [hc]
      exact Nat.lt_succ_self _
    · rw [ho]
      show claimable (Function.update s.orders s.order_count _ s.order_count) = true
      rw [Function.update_self]
      rfl

/-- One cook and one delivery person. -/
def oneEach : Staffed := ⟨⟨1, 1⟩, by decide, by decide⟩

/-- Both have looked at the empty table and wait. -/
def bothWaiting : Shop :=
  ((opening fun i => newOrder i 0 0).setCook 0 .waiting).setDelivery 0 ⟨false, []⟩ .waiting

theorem bothWaiting_reachable : (shopSystem oneEach).Reachable bothWaiting := by
  have h0 : (shopSystem oneEach).Reachable (opening fun i => newOrder i 0 0) := .start ⟨_, rfl⟩
  have h1 := h0.next (.cook (i := 0) (by decide) (.wait rfl rfl))
  exact h1.next (.delivery (d := 0) (by decide) (.wait rfl rfl rfl))

end SystemOS.PideShop.WakeUps
