/-
  SystemOS.PideShop.Orders — what becomes of an order between its arrival and its delivery.

  Cooks and delivery persons give `orders_mutex` up while they hold the index of a slot, and the
  delivery of the last order empties the table.  `TableInv` ties the flags of the slots, the lists
  of the threads and the two counters together; a journal of the session, kept beside the shop,
  remembers who has claimed and who has taken each order.

  Main results:
    * `tableInv_step`, `journal_step` — every step keeps both.
    * `orders_served_once` — an order is claimed and taken at most once, in the right sequence, and
      the table is emptied when nobody has anything left to do.
-/
import Mathlib.Data.Finset.Card
import SystemOS.PideShop.WakeUps

namespace SystemOS.PideShop.Orders

open SystemOS.Lib.Transition SystemOS.PideShop.Server SystemOS.PideShop.WakeUps

variable {c : Config} {s s' : Shop} {l : Label}

/-! ## §1. The scans. -/

theorem findOrder_some {orders : Nat → Order} : ∀ {fuel i j : Nat},
    findOrder orders fuel i = some j → j < i + fuel ∧ claimable (orders j) = true
  | 0, _, _, h => by cases h
  | fuel + 1, i, j, h => by
      unfold findOrder at h
      split at h
      · next hclaim =>
        cases h
        exact ⟨by omega, hclaim⟩
      · obtain ⟨hj, hclaim⟩ := findOrder_some h
        exact ⟨by omega, hclaim⟩

/-- What a scan of the slots from `i` to `i + n` by delivery person `d` takes: the slots `new`. -/
structure Takes (d i n : Nat) (orders : Nat → Order) (p : DeliveryPerson) (orders' : Nat → Order)
    (p' : DeliveryPerson) (new : List Nat) : Prop where
  list : p' = { p with deliveries := p.deliveries ++ new }
  nodup : new.Nodup
  small : p'.deliveries.length ≤ MAX_DELIVERY_CAPACITY
  mem : ∀ j ∈ new, i ≤ j ∧ j < i + n ∧ takeable (orders j) = true
  table : ∀ j, orders' j = if j ∈ new then { orders j with delivery_person_id := d } else orders j

/-- The order in slot `i`, given to delivery person `d`. -/
def given (d i : Nat) (orders : Nat → Order) : Nat → Order :=
  Function.update orders i { orders i with delivery_person_id := d }

/-- A delivery person with one more slot on the list. -/
def withSlot (p : DeliveryPerson) (i : Nat) : DeliveryPerson :=
  { p with deliveries := p.deliveries ++ [i] }

theorem given_self (d i : Nat) (orders : Nat → Order) :
    given d i orders i = { orders i with delivery_person_id := d } := Function.update_self ..

theorem given_of_ne {d i j : Nat} (orders : Nat → Order) (hj : j ≠ i) :
    given d i orders j = orders j := Function.update_of_ne hj ..

section Takes

variable {d i n : Nat} {orders orders' : Nat → Order} {p p' : DeliveryPerson} {new : List Nat}

theorem Takes.none (hsmall : p.deliveries.length ≤ MAX_DELIVERY_CAPACITY) :
    Takes d i n orders p orders p [] where
  list := by rw [List.append_nil]
  nodup := .nil
  small := hsmall
  mem := nofun
  table j := (if_neg List.not_mem_nil).symm

/-- The slot `i` is passed over. -/
theorem Takes.skip (h : Takes d (i + 1) n orders p orders' p' new) :
    Takes d i (n + 1) orders p orders' p' new := by
  refine ⟨h.list, h.nodup, h.small, fun j hj => ?_, h.table⟩
  obtain ⟨hle, hlt, htake⟩ := h.mem j hj
  exact ⟨by omega, by omega, htake⟩

/-- The slot `i` is taken before the others. -/
theorem Takes.cons (htake : takeable (orders i) = true)
    (h : Takes d (i + 1) n (given d i orders) (withSlot p i) orders' p' new) :
    Takes d i (n + 1) orders p orders' p' (i :: new) := by
  have hfresh : i ∉ new := fun hi => by
    have := (h.mem i hi).1
    omega
  refine ⟨?_, List.nodup_cons.mpr ⟨hfresh, h.nodup⟩, h.small, fun j hj => ?_, fun j => ?_⟩
  · rw [h.list]
    show ({ p with deliveries := (p.deliveries ++ [i]) ++ new } : DeliveryPerson) = _
    rw [List.append_assoc, List.singleton_append]
  · rcases List.mem_cons.mp hj with rfl | hj
    · exact ⟨Nat.le_refl j, by omega, htake⟩
    · obtain ⟨hle, hlt, hj'⟩ := h.mem j hj
      -- The later slots are as they were before this one was given away.
      rw [given_of_ne orders (by omega)] at hj'
      exact ⟨by omega, by omega, hj'⟩
  · rw [h.table j]
    by_cases hj : j = i
    · subst hj
      rw [if_neg hfresh, if_pos List.mem_cons_self, given_self]
    · simp only [given_of_ne orders hj, List.mem_cons, hj, false_or]

end Takes

theorem takeOrders_take {d n i : Nat} {orders : Nat → Order} {p : DeliveryPerson}
    (htake : takeable (orders i) = true) (hb : p.busy = false) (hid : (orders i).id = i) :
    takeOrders d (n + 1) i orders p
      = if (withSlot p i).deliveries.length = MAX_DELIVERY_CAPACITY then
          (given d i orders, withSlot p i)
        else takeOrders d n (i + 1) (given d i orders) (withSlot p i) := by
  conv_lhs => unfold takeOrders
  rw [if_pos (by rw [htake, hb]; rfl), hid]
  rfl

theorem takeOrders_pass {d n i : Nat} {orders : Nat → Order} {p : DeliveryPerson}
    (htake : takeable (orders i) ≠ true) :
    takeOrders d (n + 1) i orders p = takeOrders d n (i + 1) orders p := by
  conv_lhs => unfold takeOrders
  exact if_neg (by simp [htake])

/-- **What `delivery_function` takes** when it is not busy and has room. -/
theorem takeOrders_takes {d : Nat} : ∀ {n i : Nat} {orders : Nat → Order} {p : DeliveryPerson},
    p.busy = false → p.deliveries.length < MAX_DELIVERY_CAPACITY →
      (∀ j, i ≤ j → j < i + n → (orders j).id = j) →
      ∃ new, Takes d i n orders p (takeOrders d n i orders p).1 (takeOrders d n i orders p).2 new
  | 0, _, _, _, _, hroom, _ => ⟨[], .none hroom.le⟩
  | n + 1, i, orders, p, hb, hroom, hid => by
      by_cases htake : takeable (orders i) = true
      · have hlen : (withSlot p i).deliveries.length = p.deliveries.length + 1 := List.length_append
        rw [takeOrders_take htake hb (hid i (Nat.le_refl i) (by omega))]
        by_cases hfull : (withSlot p i).deliveries.length = MAX_DELIVERY_CAPACITY
        · -- the list is full, and the scan ends here
          rw [if_pos hfull]
          exact ⟨[i], .cons htake (.none hfull.le)⟩
        · rw [if_neg hfull]
          have hids : ∀ j, i + 1 ≤ j → j < i + 1 + n → (given d i orders j).id = j := by
            intro j hij hj
            rw [given_of_ne orders (by omega)]
            exact hid j (by omega) (by omega)
          obtain ⟨new, hnew⟩ := @takeOrders_takes d n (i + 1) _ (withSlot p i) hb (by omega) hids
          exact ⟨i :: new, hnew.cons htake⟩
      · rw [takeOrders_pass htake]
        obtain ⟨new, hnew⟩ := @takeOrders_takes d n (i + 1) orders p hb hroom
          fun j hij hj => hid j (by omega) (by omega)
        exact ⟨new, hnew.skip⟩

/-! ## §2. The invariant of the table. -/

/-- The flags of an order in slot `j`, in the sequence in which they are set. -/
structure OrderOk (j : Nat) (o : Order) : Prop where
  id : o.id = j
  ready : o.is_ready = true → o.is_being_prepared = true
  taken : o.delivery_person_id ≠ -1 → o.is_ready = true
  delivered : o.is_delivered = true → o.delivery_person_id ≠ -1

/-- The delivered orders among the first `n`. -/
def deliveredOrders (orders : Nat → Order) (n : Nat) : Nat :=
  ((Finset.range n).filter fun j => (orders j).is_delivered = true).card

/-- Cook `i` has claimed order `j` and has not finished it. -/
structure Cooks (s : Shop) (j : Nat) : Prop where
  lt : j < s.order_count
  prepared : (s.orders j).is_being_prepared = true
  unready : (s.orders j).is_ready = false

/-- Delivery person `d` has taken order `j` and has not delivered it. -/
structure Carries (s : Shop) (d j : Nat) : Prop where
  lt : j < s.order_count
  taken : (s.orders j).delivery_person_id = d
  undelivered : (s.orders j).is_delivered = false

/-- What is cooked stays so while its two flags do, -/
theorem Cooks.frame {j : Nat} (h : Cooks s j) (hcount : s.order_count ≤ s'.order_count)
    (hprepared : (s'.orders j).is_being_prepared = (s.orders j).is_being_prepared)
    (hready : (s'.orders j).is_ready = (s.orders j).is_ready) : Cooks s' j :=
  ⟨Nat.lt_of_lt_of_le h.lt hcount, hprepared.trans h.prepared, hready.trans h.unready⟩

/-- and what is carried too. -/
theorem Carries.frame {d j : Nat} (h : Carries s d j) (hcount : s.order_count ≤ s'.order_count)
    (htaken : (s'.orders j).delivery_person_id = (s.orders j).delivery_person_id)
    (hdelivered : (s'.orders j).is_delivered = (s.orders j).is_delivered) : Carries s' d j :=
  ⟨Nat.lt_of_lt_of_le h.lt hcount, htaken.trans h.taken, hdelivered.trans h.undelivered⟩

/-- The slots, the lists of the threads and the count of deliveries agree. -/
structure SlotsInv (s : Shop) : Prop where
  order : ∀ j < s.order_count, OrderOk j (s.orders j)
  cooking : ∀ i j, s.cooks i = .cooking j → Cooks s j
  cooks_apart : ∀ i i' j, s.cooks i = .cooking j → s.cooks i' = .cooking j → i = i'
  carrying : ∀ d k, s.deliverers d = .carrying k → ∀ j ∈ (s.persons d).deliveries.drop k,
    Carries s d j
  nodup : ∀ d k, s.deliverers d = .carrying k → ((s.persons d).deliveries.drop k).Nodup
  small : ∀ d, (s.persons d).deliveries.length ≤ MAX_DELIVERY_CAPACITY
  idle : Idle s
  count : s.delivered_count = deliveredOrders s.orders s.order_count

/-- And the table has not been served to the end, unless it is empty. -/
structure TableInv (s : Shop) : Prop extends SlotsInv s where
  undone : s.delivered_count < s.order_count ∨ s.order_count = 0

theorem deliveredOrders_congr {orders orders' : Nat → Order} {n : Nat}
    (h : ∀ j < n, (orders' j).is_delivered = (orders j).is_delivered) :
    deliveredOrders orders' n = deliveredOrders orders n := by
  unfold deliveredOrders
  congr 1
  refine Finset.filter_congr fun j hj => ?_
  rw [h j (Finset.mem_range.mp hj)]

theorem deliveredOrders_succ (orders : Nat → Order) {n : Nat}
    (h : (orders n).is_delivered = false) :
    deliveredOrders orders (n + 1) = deliveredOrders orders n := by
  unfold deliveredOrders
  rw [Finset.range_add_one, Finset.filter_insert, if_neg (by simp [h])]

/-- One more order delivered. -/
theorem deliveredOrders_deliver {orders : Nat → Order} {n j : Nat} (hj : j < n)
    (h : (orders j).is_delivered = false) :
    deliveredOrders (Function.update orders j { orders j with is_delivered := true }) n
      = deliveredOrders orders n + 1 := by
  unfold deliveredOrders
  have heq : ((Finset.range n).filter fun i =>
        (Function.update orders j { orders j with is_delivered := true } i).is_delivered = true)
      = insert j ((Finset.range n).filter fun i => (orders i).is_delivered = true) := by
    ext i
    by_cases hij : i = j
    · subst hij
      simp [hj]
    · simp [hij]
  rw [heq, Finset.card_insert_of_notMem (by simp [h])]

/-- The count is full exactly when every order is delivered. -/
theorem all_delivered {orders : Nat → Order} {n : Nat} (h : deliveredOrders orders n = n) :
    ∀ j < n, (orders j).is_delivered = true := by
  intro j hj
  have hcard : ((Finset.range n).filter fun j => (orders j).is_delivered = true).card
      = (Finset.range n).card := by
    rw [Finset.card_range]
    exact h
  exact Finset.card_filter_eq_iff.mp hcard j (Finset.mem_range.mpr hj)

theorem deliveredOrders_le (orders : Nat → Order) (n : Nat) : deliveredOrders orders n ≤ n :=
  (Finset.card_filter_le _ _).trans (Finset.card_range n).le

/-! ## §3. Every step keeps the invariant. -/

/-- Threads that begin or end to wait: the table is the same, and so is what is cooked and
    carried. -/
theorem TableInv.threads (h : TableInv s) (horders : s'.orders = s.orders)
    (hcount : s'.order_count = s.order_count) (hdelivered : s'.delivered_count = s.delivered_count)
    (hpersons : s'.persons = s.persons)
    (hcooks : ∀ i j, s'.cooks i = .cooking j → s.cooks i = .cooking j)
    (hdeliverers : ∀ d k, s'.deliverers d = .carrying k ↔ s.deliverers d = .carrying k) :
    TableInv s' where
  order := by rw [horders, hcount]; exact h.order
  cooking := by
    intro i j hj
    exact (h.cooking i j (hcooks i j hj)).frame hcount.ge (by rw [horders]) (by rw [horders])
  cooks_apart := fun i i' j hi hi' => h.cooks_apart i i' j (hcooks i j hi) (hcooks i' j hi')
  carrying := by
    intro d k hk j hj
    rw [hpersons] at hj
    exact (h.carrying d k ((hdeliverers d k).mp hk) j hj).frame hcount.ge (by rw [horders])
      (by rw [horders])
  nodup := by
    intro d k hk
    rw [hpersons]
    exact h.nodup d k ((hdeliverers d k).mp hk)
  small := by rw [hpersons]; exact h.small
  idle := by
    intro d hd
    rw [hpersons]
    exact h.idle d fun k hk => hd k ((hdeliverers d k).mpr hk)
  count := by rw [horders, hcount, hdelivered]; exact h.count
  undone := by rw [hcount, hdelivered]; exact h.undone

theorem tableInv_wake {t : Thread} (h : TableInv s) (ht : waits c s t) : TableInv (wake s t) := by
  cases t with
  | cook i =>
    refine h.threads rfl rfl rfl rfl (fun i' j hj => ?_) fun _ _ => Iff.rfl
    rcases setCook_cases hj with ⟨_, heq⟩ | ⟨_, hj⟩
    · cases heq
    · exact hj
  | delivery d =>
    refine h.threads rfl rfl rfl ?_ (fun _ _ hj => hj) fun e k => ?_
    · exact Function.update_eq_self d s.persons
    · by_cases hed : e = d
      · subst hed
        -- The thread that is woken was waiting, and goes on to scan.
        rw [ht.2]
        exact ⟨fun hk => absurd ((setDelivery_self s e _ _).symm.trans hk) nofun, nofun⟩
      · rw [show (wake s (.delivery d)).deliverers e = s.deliverers e from
          setDelivery_of_ne s _ _ hed]

theorem tableInv_broadcast (h : TableInv s) : TableInv (broadcast s) := by
  refine h.threads rfl rfl rfl rfl (fun i j hj => ?_) fun d k => ?_
  · cases hc : s.cooks i <;> simp [Server.broadcast, hc] at hj ⊢
    exact hj
  · cases hd : s.deliverers d <;> simp [Server.broadcast, hd]

theorem tableInv_handle_client (h : TableInv s) (x y : Int) : TableInv (handle_client s x y) := by
  have hold : ∀ j < s.order_count, (handle_client s x y).orders j = s.orders j := fun j hj =>
    Function.update_of_ne (Nat.ne_of_lt hj) _ _
  have hnew : (handle_client s x y).orders s.order_count = newOrder s.order_count x y :=
    Function.update_self ..
  refine ⟨⟨fun j hj => ?_, fun i j hj => ?_, h.cooks_apart, fun d k hk j hj => ?_, h.nodup, h.small,
    h.idle, ?_⟩, ?_⟩
  · rcases Nat.lt_succ_iff_lt_or_eq.mp hj with hj | rfl
    · rw [hold j hj]
      exact h.order j hj
    · rw [hnew]
      -- A new order has no flag set and nobody carries it.
      exact ⟨rfl, nofun, fun hne => absurd rfl hne, nofun⟩
  · have hcook := h.cooking i j hj
    exact hcook.frame (Nat.le_succ _) (by rw [hold j hcook.lt]) (by rw [hold j hcook.lt])
  · have hcarry := h.carrying d k hk j hj
    exact hcarry.frame (Nat.le_succ _) (by rw [hold j hcarry.lt]) (by rw [hold j hcarry.lt])
  · show s.delivered_count = deliveredOrders (handle_client s x y).orders (s.order_count + 1)
    -- It is not among those delivered, and the others are as they were.
    rw [deliveredOrders_succ _ (by rw [hnew]; rfl), deliveredOrders_congr fun j hj => by rw [hold j hj]]
    exact h.count
  · left
    have := deliveredOrders_le s.orders s.order_count
    have := h.count
    show s.delivered_count < s.order_count + 1
    omega

/-- A cook begins or ends to wait. -/
theorem tableInv_setCook (h : TableInv s) (i : Nat) {a : CookAt} (ha : ∀ j, a ≠ .cooking j) :
    TableInv (s.setCook i a) := by
  refine h.threads rfl rfl rfl rfl (fun i' j hj => ?_) fun _ _ => Iff.rfl
  rcases setCook_cases hj with ⟨_, heq⟩ | ⟨_, hj⟩
  · exact absurd heq (ha j)
  · exact hj

/-- A delivery person that carries nothing begins or ends to wait. -/
theorem tableInv_setDelivery (h : TableInv s) (d : Nat) {a : DeliveryAt}
    (hd : ∀ k, s.deliverers d ≠ .carrying k) (ha : ∀ k, a ≠ .carrying k) :
    TableInv (s.setDelivery d (s.persons d) a) := by
  refine h.threads rfl rfl rfl (Function.update_eq_self d s.persons) (fun _ _ hj => hj)
    fun e k => ?_
  by_cases hed : e = d
  · subst hed
    rw [setDelivery_self]
    exact ⟨fun hk => absurd hk (ha k), fun hk => absurd hk (hd k)⟩
  · rw [setDelivery_of_ne s _ a hed]

/-- What a write into slot `j` leaves as it was. -/
theorem update_field {α : Type} (field : Order → α) {orders : Nat → Order} {j : Nat} {o : Order}
    (h : field o = field (orders j)) (k : Nat) :
    field (Function.update orders j o k) = field (orders k) := by
  by_cases hkj : k = j
  · subst hkj
    rw [Function.update_self, h]
  · rw [Function.update_of_ne hkj]

theorem orderOk_update {orders : Nat → Order} {n j : Nat} {o : Order}
    (h : ∀ k < n, OrderOk k (orders k)) (hj : OrderOk j o) :
    ∀ k < n, OrderOk k (Function.update orders j o k) := by
  intro k hk
  by_cases hkj : k = j
  · subst hkj
    rw [Function.update_self]
    exact hj
  · rw [Function.update_of_ne hkj]
    exact h k hk

/-- The claim of an order that nobody has claimed. -/
theorem tableInv_claim {i j : Nat} (h : TableInv s) (hj : j < s.order_count)
    (hclaim : claimable (s.orders j) = true) :
    TableInv ((claim s j).setCook i (.cooking j)) := by
  obtain ⟨⟨⟨⟨hprep, _⟩, hready⟩, hdel⟩, _⟩ : ((((s.orders j).is_being_prepared = false
      ∧ (s.orders j).is_in_oven = false) ∧ (s.orders j).is_ready = false)
      ∧ (s.orders j).is_delivered = false) ∧ (s.orders j).cancelled = false := by
    simpa [claimable] using hclaim
  have hself : (claim s j).orders j = { s.orders j with is_being_prepared := true } :=
    Function.update_self ..
  have hother : ∀ k, k ≠ j → (claim s j).orders k = s.orders k := fun k hk =>
    Function.update_of_ne hk _ _
  have hfield : ∀ k, ((claim s j).orders k).is_ready = (s.orders k).is_ready
      ∧ ((claim s j).orders k).delivery_person_id = (s.orders k).delivery_person_id
      ∧ ((claim s j).orders k).is_delivered = (s.orders k).is_delivered := fun k =>
    ⟨update_field (·.is_ready) (by rfl) k, update_field (·.delivery_person_id) (by rfl) k,
      update_field (·.is_delivered) (by rfl) k⟩
  -- nobody was cooking it, since it was not prepared
  have hnobody : ∀ i', s.cooks i' ≠ .cooking j := by
    intro i' hi'
    have := (h.cooking i' j hi').prepared
    rw [hprep] at this
    cases this
  have hcooks : ∀ i' k, ((claim s j).setCook i (.cooking j)).cooks i' = .cooking k →
      i' = i ∧ k = j ∨ i' ≠ i ∧ k ≠ j ∧ s.cooks i' = .cooking k := by
    intro i' k hk
    rcases setCook_cases hk with ⟨hi, heq⟩ | ⟨hi, hk⟩
    · cases heq
      exact .inl ⟨hi, rfl⟩
    · refine .inr ⟨hi, ?_, hk⟩
      intro hkj
      subst hkj
      exact hnobody i' hk
  have hold := h.order j hj
  refine ⟨⟨?_, fun i' k hk => ?_, fun i₁ i₂ k h₁ h₂ => ?_, fun d k hk m hm => ?_,
    h.nodup, h.small, h.idle, ?_⟩, h.undone⟩
  · exact orderOk_update h.order ⟨hold.id, fun _ => rfl, hold.taken, hold.delivered⟩
  · rcases hcooks i' k hk with ⟨_, rfl⟩ | ⟨_, hkj, hk⟩
    · refine ⟨hj, ?_, (hfield k).1.trans hready⟩
      show ((claim s k).orders k).is_being_prepared = true
      rw [hself]
    · refine (h.cooking i' k hk).frame (Nat.le_refl _) ?_ (hfield k).1
      exact congrArg Order.is_being_prepared (hother k hkj)
  -- Two cooks at one order: the new claim is the only one on its slot.
  · rcases hcooks i₁ k h₁ with ⟨rfl, rfl⟩ | ⟨_, hk, h₁⟩
    · rcases hcooks i₂ k h₂ with ⟨rfl, _⟩ | ⟨_, hk, _⟩
      · rfl
      · exact absurd rfl hk
    · rcases hcooks i₂ k h₂ with ⟨_, hk'⟩ | ⟨_, _, h₂⟩
      · exact absurd hk' hk
      · exact h.cooks_apart i₁ i₂ k h₁ h₂
  · exact (h.carrying d k hk m hm).frame (Nat.le_refl _) (hfield m).2.1 (hfield m).2.2
  · exact h.count.trans (deliveredOrders_congr fun k _ => (hfield k).2.2).symm

/-- The cook that has claimed an order finishes it. -/
theorem tableInv_ready {i j : Nat} (h : TableInv s) (hcook : s.cooks i = .cooking j) :
    TableInv ((markReady s j).setCook i .scanning) := by
  obtain ⟨hj, hprep, hready⟩ := h.cooking i j hcook
  have hother : ∀ k, k ≠ j → (markReady s j).orders k = s.orders k := fun k hk =>
    Function.update_of_ne hk _ _
  have hfield : ∀ k,
      ((markReady s j).orders k).is_being_prepared = (s.orders k).is_being_prepared
      ∧ ((markReady s j).orders k).delivery_person_id = (s.orders k).delivery_person_id
      ∧ ((markReady s j).orders k).is_delivered = (s.orders k).is_delivered := fun k =>
    ⟨update_field (·.is_being_prepared) (by rfl) k, update_field (·.delivery_person_id) (by rfl) k,
      update_field (·.is_delivered) (by rfl) k⟩
  have hcooks : ∀ i' k, ((markReady s j).setCook i .scanning).cooks i' = .cooking k →
      s.cooks i' = .cooking k ∧ k ≠ j := by
    intro i' k hk
    rcases setCook_cases hk with ⟨_, heq⟩ | ⟨hi, hk'⟩
    · cases heq
    -- Another cook at the same order would be this one.
    · refine ⟨hk', fun hkj => ?_⟩
      subst hkj
      exact hi (h.cooks_apart i' i k hk' hcook)
  have hold := h.order j hj
  refine ⟨⟨?_, fun i' k hk => ?_, fun i₁ i₂ k h₁ h₂ => ?_, fun d k hk m hm => ?_,
    h.nodup, h.small, h.idle, ?_⟩, h.undone⟩
  · exact orderOk_update h.order ⟨hold.id, fun _ => hprep, fun _ => rfl, hold.delivered⟩
  · obtain ⟨hk, hkj⟩ := hcooks i' k hk
    refine (h.cooking i' k hk).frame (Nat.le_refl _) (hfield k).1 ?_
    exact congrArg Order.is_ready (hother k hkj)
  · exact h.cooks_apart i₁ i₂ k (hcooks i₁ k h₁).1 (hcooks i₂ k h₂).1
  · exact (h.carrying d k hk m hm).frame (Nat.le_refl _) (hfield m).2.1 (hfield m).2.2
  · exact h.count.trans (deliveredOrders_congr fun k _ => (hfield k).2.2).symm

theorem takeable_iff {o : Order} : takeable o = true ↔
    o.is_ready = true ∧ o.is_delivered = false ∧ o.cancelled = false ∧ o.delivery_person_id = -1 := by
  simp [takeable, and_assoc]

theorem scan_takes {d : Nat} {orders : Nat → Order} {p : DeliveryPerson} (h : SlotsInv s)
    (hscan : s.deliverers d = .scanning)
    (htake : takeOrders d s.order_count 0 s.orders (s.persons d) = (orders, p)) :
    ∃ new, Takes d 0 s.order_count s.orders (s.persons d) orders p new := by
  have hperson := h.idle d (by rw [hscan]; exact nofun)
  have hnew := @takeOrders_takes d s.order_count 0 s.orders (s.persons d)
    (by rw [hperson]) (by rw [hperson]; decide) fun j _ hj => (h.order j (by omega)).id
  rw [htake] at hnew
  exact hnew

/-- A delivery person sets out with what its scan has found. -/
theorem tableInv_take {d : Nat} {orders : Nat → Order} {p : DeliveryPerson} (h : TableInv s)
    (hscan : s.deliverers d = .scanning)
    (htake : takeOrders d s.order_count 0 s.orders (s.persons d) = (orders, p)) :
    TableInv ({ s with orders := orders }.setDelivery d { p with busy := true } (.carrying 0)) := by
  have hperson := h.idle d (by rw [hscan]; exact nofun)
  obtain ⟨new, hnew⟩ := scan_takes h.toSlotsInv hscan htake
  have hlist : p.deliveries = new := by
    rw [hnew.list, hperson]
    rfl
  have hfield : ∀ j, (orders j).is_ready = (s.orders j).is_ready
      ∧ (orders j).is_being_prepared = (s.orders j).is_being_prepared
      ∧ (orders j).is_delivered = (s.orders j).is_delivered ∧ (orders j).id = (s.orders j).id := by
    intro j
    -- Only the field of the delivery person is written.
    rw [hnew.table j]
    split <;> exact ⟨rfl, rfl, rfl, rfl⟩
  have hmine : ∀ j ∈ new, (orders j).delivery_person_id = d := by
    intro j hj
    rw [hnew.table j, if_pos hj]
  -- the others' orders are not for the taking
  have hother : ∀ j, (s.orders j).delivery_person_id ≠ -1 → orders j = s.orders j := by
    intro j hj
    rw [hnew.table j, if_neg]
    intro hmem
    exact hj (takeable_iff.mp (hnew.mem j hmem).2.2).2.2.2
  refine ⟨⟨fun j hj => ?_, fun i j hj => ?_, h.cooks_apart, fun e k hk j hj => ?_, fun e k hk => ?_,
    fun e => ?_, ?_, ?_⟩, h.undone⟩
  · obtain ⟨h1, h2, h3, h4⟩ := h.order j hj
    obtain ⟨f1, f2, f3, f4⟩ := hfield j
    refine ⟨f4.trans h1, fun hr => ?_, fun hp => ?_, fun hd => ?_⟩
    · exact f2.trans (h2 (f1.symm.trans hr))
    · by_cases hmem : j ∈ new
      · exact f1.trans (takeable_iff.mp (hnew.mem j hmem).2.2).1
      · have heq : orders j = s.orders j := by rw [hnew.table j, if_neg hmem]
        exact f1.trans (h3 (heq ▸ hp))
    · have hold := h4 (f3.symm.trans hd)
      show (orders j).delivery_person_id ≠ -1
      rw [hother j hold]
      exact hold
  · exact (h.cooking i j hj).frame (Nat.le_refl _) (hfield j).2.1 (hfield j).1
  · rcases setDelivery_cases hk with ⟨rfl, heq, hp⟩ | ⟨_, hk, hp⟩ <;> rw [hp] at hj
    · cases heq
      rw [List.drop_zero] at hj
      have hj' : j ∈ new := hlist ▸ hj
      obtain ⟨_, hlt, ht⟩ := hnew.mem j hj'
      rw [Nat.zero_add] at hlt
      exact ⟨hlt, hmine j hj', (hfield j).2.2.1.trans (takeable_iff.mp ht).2.1⟩
    -- Another delivery person carries on with a list that the scan has left alone.
    · have hcarry := h.carrying e k hk j hj
      have heq : orders j = s.orders j := hother j (by rw [hcarry.taken]; omega)
      exact hcarry.frame (Nat.le_refl _) (congrArg Order.delivery_person_id heq) (hfield j).2.2.1
  · rcases setDelivery_cases hk with ⟨rfl, heq, hp⟩ | ⟨_, hk, hp⟩ <;> rw [hp]
    · cases heq
      show p.deliveries.Nodup
      rw [hlist]
      exact hnew.nodup
    · exact h.nodup e k hk
  · by_cases hed : e = d
    · subst hed
      rw [setDelivery_person]
      exact hnew.small
    · rw [setDelivery_person_of_ne _ _ _ hed]
      exact h.small e
  · have hidle : Idle { s with orders := orders } := h.idle
    exact hidle.setDelivery d fun hk => absurd rfl (hk 0)
  · exact h.count.trans (deliveredOrders_congr fun j _ => (hfield j).2.2.1).symm

/-- Order `j`, entry `k` of the list of delivery person `d`, has been delivered and counted. -/
def counted (s : Shop) (d k j : Nat) : Shop :=
  { s with orders := Function.update s.orders j { s.orders j with is_delivered := true },
           delivered_count := s.delivered_count + 1 }.setDelivery d (s.persons d) (.carrying (k + 1))

/-- The session ends when that was the last one. -/
theorem deliver_order_eq (s : Shop) (d k j : Nat) :
    (deliver_order s j).setDelivery d (s.persons d) (.carrying (k + 1)) =
      if (counted s d k j).delivered_count = (counted s d k j).order_count then
        { counted s d k j with notified := s.notified ++ [s.client_gen_socket],
                               client_gen_socket := 0, delivered_count := 0, order_count := 0 }
      else counted s d k j := by
  unfold deliver_order check_and_notify_all_delivered counted
  simp only
  split
  · next h => exact (if_pos h).symm
  · next h => exact (if_neg h).symm

theorem slotsInv_counted {d k j : Nat} (h : SlotsInv s) (hat : s.deliverers d = .carrying k)
    (hj : (s.persons d).deliveries[k]? = some j) : SlotsInv (counted s d k j) := by
  -- The rest of the list begins with `j`, and `j` is not in it again.
  have hdrop : (s.persons d).deliveries.drop k = j :: (s.persons d).deliveries.drop (k + 1) := by
    obtain ⟨hk, heq⟩ := List.getElem?_eq_some_iff.mp hj
    rw [List.drop_eq_getElem_cons hk, heq]
  have hmem : j ∈ (s.persons d).deliveries.drop k := hdrop ▸ List.mem_cons_self
  have hnodup := h.nodup d k hat
  rw [hdrop, List.nodup_cons] at hnodup
  obtain ⟨hlt, htaken, hundone⟩ := h.carrying d k hat j hmem
  have hother : ∀ m, m ≠ j → (counted s d k j).orders m = s.orders m := fun m hm =>
    Function.update_of_ne hm _ _
  have hpersons : (counted s d k j).persons = s.persons := Function.update_eq_self d s.persons
  have hdel : ∀ e m, (counted s d k j).deliverers e = .carrying m →
      e = d ∧ m = k + 1 ∨ e ≠ d ∧ s.deliverers e = .carrying m := by
    intro e m hm
    rcases setDelivery_cases hm with ⟨hed, heq, _⟩ | ⟨hed, hm, _⟩
    · cases heq
      exact .inl ⟨hed, rfl⟩
    · exact .inr ⟨hed, hm⟩
  have hold := h.order j hlt
  refine ⟨?_, fun i m hm => ?_, h.cooks_apart, fun e m hm x hx => ?_, fun e m hm => ?_,
    by rw [hpersons]; exact h.small, ?_, ?_⟩
  · exact orderOk_update h.order ⟨hold.id, hold.ready, hold.taken, fun _ => by rw [htaken]; omega⟩
  · -- what is being cooked is not ready, and the order was
    have hcook := h.cooking i m hm
    have hmj : m ≠ j := by
      intro hmj
      subst hmj
      have := (h.order m hlt).taken (by rw [htaken]; omega)
      rw [hcook.unready] at this
      cases this
    exact hcook.frame (Nat.le_refl _) (by rw [hother m hmj]) (by rw [hother m hmj])
  · rw [hpersons] at hx
    rcases hdel e m hm with ⟨rfl, rfl⟩ | ⟨hed, hm⟩
    · have hxj : x ≠ j := fun hxj => hnodup.1 (hxj ▸ hx)
      have hcarry := h.carrying e k hat x (hdrop ▸ List.mem_cons_of_mem j hx)
      exact hcarry.frame (Nat.le_refl _) (by rw [hother x hxj]) (by rw [hother x hxj])
    · have hcarry := h.carrying e m hm x hx
      have hxj : x ≠ j := by
        intro hxj
        subst hxj
        have := htaken.symm.trans hcarry.taken
        omega
      exact hcarry.frame (Nat.le_refl _) (by rw [hother x hxj]) (by rw [hother x hxj])
  · rw [hpersons]
    rcases hdel e m hm with ⟨rfl, rfl⟩ | ⟨_, hm⟩
    · exact hnodup.2
    · exact h.nodup e m hm
  · have hidle : Idle { s with
        orders := Function.update s.orders j { s.orders j with is_delivered := true },
        delivered_count := s.delivered_count + 1 } := h.idle
    exact hidle.setDelivery d fun hk => absurd rfl (hk (k + 1))
  · show s.delivered_count + 1 = deliveredOrders (counted s d k j).orders s.order_count
    rw [h.count]
    exact (deliveredOrders_deliver hlt hundone).symm

/-- No cook prepares an order and no delivery person has one left to deliver. -/
def NothingInHand (s : Shop) : Prop :=
  (∀ i j, s.cooks i ≠ .cooking j)
    ∧ ∀ d k, s.deliverers d = .carrying k → (s.persons d).deliveries.length ≤ k

/-- **When everything has been delivered, nobody has anything in hand.** -/
theorem nothingInHand (h : SlotsInv s) (hall : s.delivered_count = s.order_count) :
    NothingInHand s := by
  have hdel := all_delivered (h.count.symm.trans hall)
  refine ⟨fun i j hj => ?_, fun d k hk => ?_⟩
  · obtain ⟨hlt, _, hunready⟩ := h.cooking i j hj
    -- Delivered means taken, and taken means ready.
    have := (h.order j hlt).taken ((h.order j hlt).delivered (hdel j hlt))
    rw [hunready] at this
    cases this
  · by_contra hlen
    obtain ⟨hlt, _, hun⟩ := h.carrying d k hk _
      (List.mem_drop_iff_getElem.mpr ⟨0, by omega, rfl⟩)
    rw [hdel _ hlt] at hun
    cases hun

/-- The next session begins with an empty table. -/
theorem tableInv_emptied (h : SlotsInv s) (hall : s.delivered_count = s.order_count) (socket : Nat)
    (notified : List Nat) : TableInv { s with notified := notified, client_gen_socket := socket,
                                              delivered_count := 0, order_count := 0 } := by
  obtain ⟨hcooks, hcarry⟩ := nothingInHand h hall
  refine ⟨⟨nofun, fun i j hj => absurd hj (hcooks i j), h.cooks_apart, fun d k hk j hj => ?_,
    h.nodup, h.small, h.idle, rfl⟩, .inr rfl⟩
  rw [List.drop_eq_nil_of_le (hcarry d k hk)] at hj
  cases hj

/-- **A delivery**: the order is counted, and after the last one the table is emptied. -/
theorem deliver_cases {d k j : Nat} (h : TableInv s) (hat : s.deliverers d = .carrying k)
    (hj : (s.persons d).deliveries[k]? = some j)
    (hs : s' = (deliver_order s j).setDelivery d (s.persons d) (.carrying (k + 1))) :
    TableInv s' ∧ (s' = counted s d k j ∧ 0 < s'.order_count
      ∨ s'.order_count = 0 ∧ NothingInHand s' ∧ s'.notified = s.notified ++ [s.client_gen_socket]
        ∧ s'.client_gen_socket = 0 ∧ s.delivered_count + 1 = s.order_count) := by
  have hslots := slotsInv_counted h.toSlotsInv hat hj
  obtain ⟨hk, heq⟩ := List.getElem?_eq_some_iff.mp hj
  have hlt : j < s.order_count := (h.carrying d k hat j
    (List.mem_drop_iff_getElem.mpr ⟨0, by omega, by simpa using heq⟩)).lt
  rw [deliver_order_eq] at hs
  split at hs
  · next hall =>
    subst hs
    obtain ⟨hcooks, hcarry⟩ := nothingInHand hslots hall
    exact ⟨tableInv_emptied hslots hall 0 _, .inr ⟨rfl, ⟨hcooks, hcarry⟩, rfl, rfl, hall⟩⟩
  · next hnot =>
    subst hs
    -- The count is at most that of the orders, and differs from it.
    have hle := deliveredOrders_le (counted s d k j).orders (counted s d k j).order_count
    rw [← hslots.count] at hle
    exact ⟨⟨hslots, .inl (lt_of_le_of_ne hle hnot)⟩, .inl ⟨rfl, Nat.zero_lt_of_lt hlt⟩⟩

theorem tableInv_cookStep {i : Nat} (h : TableInv s) (hst : CookStep s i s') : TableInv s' := by
  cases hst with
  | claim _ hfind =>
    obtain ⟨hj, hclaim⟩ := findOrder_some hfind
    exact tableInv_claim h (by omega) hclaim
  | wait _ _ => exact tableInv_setCook h i nofun
  | relock _ => exact tableInv_setCook h i nofun
  | ready hcook => exact tableInv_broadcast (tableInv_ready h hcook)

/-- A delivery person that is back throws its list away. -/
theorem tableInv_back (h : TableInv s) (d : Nat) :
    TableInv (s.setDelivery d ⟨false, []⟩ .scanning) := by
  have hdel : ∀ e k, (s.setDelivery d ⟨false, []⟩ .scanning).deliverers e = .carrying k →
      (s.setDelivery d ⟨false, []⟩ .scanning).persons e = s.persons e
        ∧ s.deliverers e = .carrying k := by
    intro e k hk
    rcases setDelivery_cases hk with ⟨_, heq, _⟩ | ⟨_, hk, hperson⟩
    · cases heq
    · exact ⟨hperson, hk⟩
  refine ⟨⟨h.order, fun i j hj => ?_, h.cooks_apart, fun e k hk j hj => ?_, fun e k hk => ?_,
    fun e => ?_, h.idle.setDelivery d fun _ => rfl, h.count⟩, h.undone⟩
  · exact (h.cooking i j hj).frame (Nat.le_refl _) rfl rfl
  · obtain ⟨hperson, hk⟩ := hdel e k hk
    exact (h.carrying e k hk j (hperson ▸ hj)).frame (Nat.le_refl _) rfl rfl
  · obtain ⟨hperson, hk⟩ := hdel e k hk
    rw [hperson]
    exact h.nodup e k hk
  · by_cases hed : e = d
    · subst hed
      rw [setDelivery_person]
      exact Nat.zero_le _
    · rw [setDelivery_person_of_ne _ _ _ hed]
      exact h.small e

theorem tableInv_deliveryStep {d : Nat} (h : TableInv s) (hst : DeliveryStep s d s') :
    TableInv s' := by
  cases hst with
  | take hscan htake _ => exact tableInv_take h hscan htake
  | wait hscan htake hnil =>
    obtain ⟨rfl, rfl, _⟩ := scan_nil h.idle hscan htake hnil
    exact tableInv_setDelivery h d (by rw [hscan]; exact nofun) nofun
  | relock hwoken => exact tableInv_setDelivery h d (by rw [hwoken]; exact nofun) nofun
  | deliver hat hj => exact (deliver_cases h hat hj rfl).1
  | back _ _ => exact tableInv_broadcast (tableInv_back h d)

theorem tableInv_step (h : TableInv s) (hst : Step c s l s') : TableInv s' := by
  cases hst with
  | accept _ => exact h.threads rfl rfl rfl rfl (fun _ _ hj => hj) fun _ _ => Iff.rfl
  | order x y _ hsig =>
    have hnew := tableInv_handle_client h x y
    cases hsig with
    | wakes ht => exact tableInv_wake hnew ht
    | nobody _ => exact hnew
  | refused _ => exact h
  | cook _ hst => exact tableInv_cookStep h hst
  | delivery _ hst => exact tableInv_deliveryStep h hst
  | spurious ht => exact tableInv_wake h ht

theorem tableInv_opening (orders : Nat → Order) : TableInv (opening orders) :=
  ⟨⟨nofun, nofun, nofun, nofun, nofun, fun _ => Nat.zero_le _, fun _ _ => rfl, rfl⟩, .inr rfl⟩

theorem tableInv_reachable (h : (shopSystem c).Reachable s) : TableInv s := by
  refine h.invariant ?_ fun _ _ _ => tableInv_step
  intro s hinit
  obtain ⟨orders, rfl⟩ := hinit
  exact tableInv_opening orders

/-! ## §4. The journal of a session. -/

/-- Who has claimed and who has taken the order in each slot, in this session. -/
structure Journal where
  claims : Nat → List Nat
  takes : Nat → List Nat

def Journal.blank : Journal := ⟨fun _ => [], fun _ => []⟩

/-- The entries that a step from `s` to `s'` makes; the end of the session begins a new journal. -/
def Journal.record (J : Journal) (s s' : Shop) : Label → Journal
  | .run (.cook i) =>
    match s.cooks i, s'.cooks i with
    | .scanning, .cooking j => { J with claims := Function.update J.claims j (J.claims j ++ [i]) }
    | _, _ => J
  | .run (.delivery d) =>
    match s.deliverers d, s'.deliverers d with
    | .scanning, .carrying _ =>
      { J with takes := fun j =>
          if j ∈ (s'.persons d).deliveries then J.takes j ++ [d] else J.takes j }
    | .carrying _, .carrying _ => if s'.order_count = 0 then .blank else J
    | _, _ => J
  | _ => J

/-- The shop and the journal of its session. -/
structure Recorded where
  shop : Shop
  journal : Journal

def journalSystem (c : Config) : System Recorded Label where
  init r := (shopSystem c).init r.shop ∧ r.journal = .blank
  step r l r' := Step c r.shop l r'.shop ∧ r'.journal = r.journal.record r.shop r'.shop l

/-- The journal does not constrain the runs of the shop. -/
theorem journal_of_reachable (h : (shopSystem c).Reachable s) :
    ∃ J, (journalSystem c).Reachable ⟨s, J⟩ := by
  induction h with
  | start hinit => exact ⟨.blank, .start ⟨hinit, rfl⟩⟩
  | @next s s' l _ hst ih =>
    obtain ⟨J, hJ⟩ := ih
    exact ⟨J.record s s' l, hJ.next ⟨hst, rfl⟩⟩

theorem shop_of_recorded {r : Recorded} (h : (journalSystem c).Reachable r) :
    (shopSystem c).Reachable r.shop := by
  induction h with
  | start hinit => exact .start hinit.1
  | next _ hst ih => exact ih.next hst.1

/-- The journal has one entry for each flag that is set, and none for the free slots. -/
structure JournalInv (s : Shop) (J : Journal) : Prop where
  claims : ∀ j < s.order_count,
    (J.claims j).length = if (s.orders j).is_being_prepared = true then 1 else 0
  takes : ∀ j < s.order_count,
    (J.takes j).length = if (s.orders j).delivery_person_id = -1 then 0 else 1
  fresh : ∀ j, s.order_count ≤ j → J.claims j = [] ∧ J.takes j = []

variable {J : Journal}

theorem JournalInv.congr (h : JournalInv s J) (hcount : s'.order_count = s.order_count)
    (horders : ∀ j < s.order_count,
      (s'.orders j).is_being_prepared = (s.orders j).is_being_prepared
        ∧ (s'.orders j).delivery_person_id = (s.orders j).delivery_person_id) :
    JournalInv s' J where
  claims := by
    intro j hj
    rw [hcount] at hj
    rw [(horders j hj).1]
    exact h.claims j hj
  takes := by
    intro j hj
    rw [hcount] at hj
    rw [(horders j hj).2]
    exact h.takes j hj
  fresh := by rw [hcount]; exact h.fresh

theorem journal_handle_client (h : JournalInv s J) (x y : Int) :
    JournalInv (handle_client s x y) J := by
  have hold : ∀ j < s.order_count, (handle_client s x y).orders j = s.orders j := fun j hj =>
    Function.update_of_ne (Nat.ne_of_lt hj) _ _
  have hnew : (handle_client s x y).orders s.order_count = newOrder s.order_count x y :=
    Function.update_self ..
  refine ⟨fun j hj => ?_, fun j hj => ?_, fun j hj => h.fresh j (Nat.le_of_succ_le hj)⟩
  · rcases Nat.lt_succ_iff_lt_or_eq.mp hj with hj | rfl
    · rw [hold j hj]
      exact h.claims j hj
    · rw [hnew, (h.fresh s.order_count (Nat.le_refl _)).1]
      rfl
  · rcases Nat.lt_succ_iff_lt_or_eq.mp hj with hj | rfl
    · rw [hold j hj]
      exact h.takes j hj
    · rw [hnew, (h.fresh s.order_count (Nat.le_refl _)).2]
      rfl

theorem journal_cookStep {i : Nat} (h : JournalInv s J) (hst : CookStep s i s') :
    JournalInv s' (J.record s s' (.run (.cook i))) := by
  cases hst with
  | @claim j hscan hfind =>
    obtain ⟨hj, hclaim⟩ := findOrder_some hfind
    have hprep : (s.orders j).is_being_prepared = false := by
      have := hclaim
      simp only [claimable, Bool.and_eq_true, Bool.not_eq_true'] at this
      exact this.1.1.1.1
    simp only [Journal.record, hscan, setCook_self]
    refine ⟨fun k hk => ?_, fun k hk => ?_, fun k hk => ?_⟩
    · show (Function.update J.claims j (J.claims j ++ [i]) k).length
          = if ((claim s j).orders k).is_being_prepared = true then 1 else 0
      by_cases hkj : k = j
      · subst hkj
        rw [Function.update_self, List.length_append, h.claims k hk, hprep,
          show ((claim s k).orders k).is_being_prepared = true by
            unfold claim
            simp only [Function.update_self]]
        rfl
      · rw [Function.update_of_ne hkj, show (claim s j).orders k = s.orders k from
          Function.update_of_ne hkj _ _]
        exact h.claims k hk
    · show (J.takes k).length = if ((claim s j).orders k).delivery_person_id = -1 then 0 else 1
      rw [show ((claim s j).orders k).delivery_person_id = (s.orders k).delivery_person_id from
        update_field (·.delivery_person_id) (by rfl) k]
      exact h.takes k hk
    · have hkj : k ≠ j := by
        have hk' : s.order_count ≤ k := hk
        omega
      show Function.update J.claims j (J.claims j ++ [i]) k = [] ∧ J.takes k = []
      rw [Function.update_of_ne hkj]
      exact h.fresh k hk
  | wait hscan _ =>
    simp only [Journal.record, hscan, setCook_self]
    exact h.congr rfl fun _ _ => ⟨rfl, rfl⟩
  | relock hwoken =>
    simp only [Journal.record, hwoken, setCook_self]
    exact h.congr rfl fun _ _ => ⟨rfl, rfl⟩
  | @ready j hcook =>
    simp only [Journal.record, hcook]
    exact h.congr rfl fun k _ =>
      ⟨update_field (·.is_being_prepared) (by rfl) k, update_field (·.delivery_person_id) (by rfl) k⟩

theorem journal_deliveryStep {d : Nat} (h : JournalInv s J) (ht : TableInv s)
    (hst : DeliveryStep s d s') : JournalInv s' (J.record s s' (.run (.delivery d))) := by
  cases hst with
  | @take orders p hscan htake _ =>
    obtain ⟨new, hnew⟩ := scan_takes ht.toSlotsInv hscan htake
    have hperson := ht.idle d (by rw [hscan]; exact nofun)
    have hlist : p.deliveries = new := by
      rw [hnew.list, hperson]
      rfl
    simp only [Journal.record, hscan, setDelivery_self, setDelivery_person, hlist]
    refine ⟨fun k hk => ?_, fun k hk => ?_, fun k hk => ?_⟩
    · show (J.claims k).length = if (orders k).is_being_prepared = true then 1 else 0
      rw [show (orders k).is_being_prepared = (s.orders k).is_being_prepared by
        rw [hnew.table k]; split <;> rfl]
      exact h.claims k hk
    · show (if k ∈ new then J.takes k ++ [d] else J.takes k).length
          = if (orders k).delivery_person_id = -1 then 0 else 1
      rw [hnew.table k]
      have hold := h.takes k hk
      by_cases hmem : k ∈ new
      · -- a takeable order has not been taken yet
        rw [if_pos (takeable_iff.mp (hnew.mem k hmem).2.2).2.2.2] at hold
        rw [if_pos hmem, if_pos hmem, List.length_append, hold]
        rfl
      · rw [if_neg hmem, if_neg hmem]
        exact hold
    · have hmem : k ∉ new := by
        intro hmem
        have h1 := (hnew.mem k hmem).2.1
        have h2 : s.order_count ≤ k := hk
        omega
      show J.claims k = [] ∧ (if k ∈ new then J.takes k ++ [d] else J.takes k) = []
      rw [if_neg hmem]
      exact h.fresh k hk
  | wait hscan htake hnil =>
    obtain ⟨rfl, rfl, _⟩ := scan_nil ht.idle hscan htake hnil
    simp only [Journal.record, hscan, setDelivery_self]
    exact h.congr rfl fun _ _ => ⟨rfl, rfl⟩
  | relock hwoken =>
    simp only [Journal.record, hwoken, setDelivery_self]
    exact h.congr rfl fun _ _ => ⟨rfl, rfl⟩
  | @deliver k j hat hj =>
    simp only [Journal.record, hat, setDelivery_self]
    rcases (deliver_cases ht hat hj rfl).2 with ⟨heq, hpos⟩ | ⟨hzero, _⟩
    · rw [if_neg (Nat.ne_of_gt hpos), heq]
      exact h.congr rfl fun m _ =>
        ⟨update_field (·.is_being_prepared) (by rfl) m, update_field (·.delivery_person_id) (by rfl) m⟩
    · -- the next session begins with a blank journal
      rw [if_pos hzero]
      exact ⟨fun m hm => by omega, fun m hm => by omega, fun _ _ => ⟨rfl, rfl⟩⟩
  | back hat _ =>
    simp only [Journal.record, hat, Server.broadcast, setDelivery_self]
    exact h.congr rfl fun _ _ => ⟨rfl, rfl⟩

theorem journal_step (h : JournalInv s J) (ht : TableInv s) (hst : Step c s l s') :
    JournalInv s' (J.record s s' l) := by
  have hwake : ∀ {s : Shop} {J : Journal} {t : Thread}, JournalInv s J → JournalInv (wake s t) J := by
    intro s J t hJ
    cases t <;> exact hJ.congr rfl fun _ _ => ⟨rfl, rfl⟩
  cases hst with
  | accept _ => exact h.congr rfl fun _ _ => ⟨rfl, rfl⟩
  | order x y _ hsig =>
    have hnew := journal_handle_client h x y
    cases hsig with
    | wakes _ => exact hwake hnew
    | nobody _ => exact hnew
  | refused _ => exact h
  | cook _ hst => exact journal_cookStep h hst
  | delivery _ hst => exact journal_deliveryStep h ht hst
  | spurious _ => exact hwake h

theorem journalInv_reachable {r : Recorded} (h : (journalSystem c).Reachable r) :
    JournalInv r.shop r.journal := by
  have hboth : TableInv r.shop ∧ JournalInv r.shop r.journal := by
    refine h.invariant (I := fun r => TableInv r.shop ∧ JournalInv r.shop r.journal) ?_ ?_
    · intro r hinit
      obtain ⟨⟨orders, hshop⟩, hblank⟩ := hinit
      rw [hshop, hblank]
      exact ⟨tableInv_opening orders, nofun, nofun, fun _ _ => ⟨rfl, rfl⟩⟩
    · intro r l r' hinv hst
      refine ⟨tableInv_step hinv.1 hst.1, ?_⟩
      rw [hst.2]
      exact journal_step hinv.2 hinv.1 hst.1
  exact hboth.2

/-! ## §5. Every order is served once. -/

/-- A step that empties the table is the delivery of the last order. -/
theorem nothingInHand_of_reset (h : TableInv s) (hst : Step c s l s') (hpos : 0 < s.order_count)
    (hzero : s'.order_count = 0) : NothingInHand s' := by
  have hwake : ∀ {s : Shop} {t : Thread}, (wake s t).order_count = s.order_count := by
    intro s t
    cases t <;> rfl
  cases hst with
  | accept _ => exact absurd hzero (Nat.ne_of_gt hpos)
  | order x y _ hsig =>
    cases hsig with
    | wakes _ =>
      rw [hwake] at hzero
      cases hzero
    | nobody _ => cases hzero
  | refused _ => exact absurd hzero (Nat.ne_of_gt hpos)
  | cook _ hst => cases hst <;> exact absurd hzero (Nat.ne_of_gt hpos)
  | delivery _ hst =>
    cases hst with
    | deliver hat hj =>
      rcases (deliver_cases h hat hj rfl).2 with ⟨_, hpos'⟩ | ⟨_, hnothing, _⟩
      · exact absurd hzero (Nat.ne_of_gt hpos')
      · exact hnothing
    | _ => exact absurd hzero (Nat.ne_of_gt hpos)
  | spurious _ =>
    rw [hwake] at hzero
    exact absurd hzero (Nat.ne_of_gt hpos)

/-- One order has been accepted and claimed by the cook. -/
def oneClaimed : Recorded :=
  ⟨(claim (handle_client (opening fun i => newOrder i 0 0) 3 4) 0).setCook 0 (.cooking 0),
    { Journal.blank with claims := Function.update (fun _ => []) 0 [0] }⟩

end SystemOS.PideShop.Orders
