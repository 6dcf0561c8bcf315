/-
  SystemOS.PideShop.Completion — the message "All orders delivered" and the generator that waits
  for it.

  The generator connects, then opens one more connection for each of its `N` orders; the server
  accepts connections in the sequence in which they were made and handles them in any.  The server
  is never told `N`: it sends the message whenever the counters of deliveries and orders meet.
  `TableComplete` is the condition under which that is not too early.

  Main results:
    * `move_cases`         — up to the message, every order is in one place.
    * `completion_message` — in the runs whose deliveries all meet the condition the message means
      that all orders were delivered, and every delivery that misses it sends the message early.
    * `message_too_early`  — two orders, the first delivered before the second arrives.
-/
import SystemOS.PideShop.Orders

namespace SystemOS.PideShop.Completion

open SystemOS.Lib.Transition SystemOS.PideShop.Server SystemOS.PideShop.WakeUps
open SystemOS.PideShop.Orders

/-! ## §1. The generator and the server. -/

/-- The socket of the connection over which the generator waits for the message. -/
def generator : Nat := 1

/-- The socket of the connection that brings order `i`. -/
def orderSocket (i : Nat) : Nat := i + 2

structure Protocol where
  shop : Shop
  /-- How many of its orders the generator has sent. -/
  sent : Nat
  /-- Connections that wait for `accept`. -/
  backlog : List Nat
  /-- Connections whose `client_handler` has not yet locked the mutex. -/
  readers : List Nat
  /-- The generator has left. -/
  closed : Bool
  /-- The connections whose orders are in the table, slot by slot. -/
  accepted : List Nat
  /-- The connections whose orders were delivered. -/
  served : List Nat

inductive Event
  | connect
  | accept
  | handle (socket : Nat) (l : Label)
  | thread (l : Label)
  | hangUp

/-- The connection whose order the thread delivers with its next step. -/
def delivers (p : Protocol) : Thread → Option Nat
  | .cook _ => none
  | .delivery d =>
    match p.shop.deliverers d with
    | .carrying k => (p.shop.persons d).deliveries[k]?.bind fun j => p.accepted[j]?
    | _ => none

inductive Move (c : Config) (N : Nat) (p : Protocol) : Event → Protocol → Prop
  | connect : p.sent < N → Move c N p .connect
      { p with sent := p.sent + 1, backlog := p.backlog ++ [orderSocket p.sent] }
  | accept {k : Nat} {rest : List Nat} {s' : Shop} : p.backlog = k :: rest →
      Step c p.shop (.accept k) s' → Move c N p .accept
      { p with shop := s', backlog := rest, readers := p.readers ++ [k] }
  -- the generator writes nothing on its own connection, so its handler reads until it has left
  | handle {k : Nat} {x y : Int} {t : Option Thread} {s' : Shop} : k ∈ p.readers →
      (k = generator → p.closed = true) → Step c p.shop (.order x y t) s' →
      Move c N p (.handle k (.order x y t))
      { p with shop := s', readers := p.readers.erase k, accepted := p.accepted ++ [k] }
  | refuse {k : Nat} {s' : Shop} : k ∈ p.readers → (k = generator → p.closed = true) →
      Step c p.shop .refused s' → Move c N p (.handle k .refused)
      { p with shop := s', readers := p.readers.erase k }
  | run {t : Thread} {s' : Shop} : Step c p.shop (.run t) s' → Move c N p (.thread (.run t))
      { p with shop := s', accepted := if s'.order_count = 0 then [] else p.accepted,
               served := p.served ++ (delivers p t).toList }
  | spurious {t : Thread} {s' : Shop} : Step c p.shop (.spurious t) s' →
      Move c N p (.thread (.spurious t)) { p with shop := s' }
  | hangUp : generator ∈ p.shop.notified → Move c N p .hangUp { p with closed := true }

/-- A fresh server and the connection of the generator. -/
def opened (orders : Nat → Order) : Protocol where
  shop := opening orders
  sent := 0
  backlog := [generator]
  readers := []
  closed := false
  accepted := []
  served := []

def protocol (c : Config) (N : Nat) : System Protocol Event where
  init p := ∃ orders, p = opened orders
  step := Move c N

/-- The message means that all orders of the generator were accepted and delivered. -/
def Completed (N : Nat) (p : Protocol) : Prop :=
  generator ∈ p.shop.notified → ∀ i < N, orderSocket i ∈ p.served

/-- The delivery of the only order left on the table of the generator's session finds all `N`
    orders on that table. -/
def TableComplete (N : Nat) (p : Protocol) : Event → Prop
  | .thread (.run (.delivery d)) => ∀ k j, p.shop.deliverers d = .carrying k →
      (p.shop.persons d).deliveries[k]? = some j →
      p.shop.delivered_count + 1 = p.shop.order_count → p.shop.client_gen_socket = generator →
      p.shop.order_count = N
  | _ => True

/-! ## §2. What a step does to the session. -/

variable {c : Config} {N : Nat} {s s' : Shop} {p p' : Protocol} {e : Event}

/-- The step neither delivers an order nor ends the session. -/
structure Quiet (s s' : Shop) : Prop where
  order_count : s'.order_count = s.order_count
  notified : s'.notified = s.notified
  client_gen_socket : s'.client_gen_socket = s.client_gen_socket
  delivered : ∀ j, (s'.orders j).is_delivered = (s.orders j).is_delivered

theorem quiet_wake (s : Shop) (t : Thread) : Quiet s (wake s t) := by
  cases t <;> exact ⟨rfl, rfl, rfl, fun _ => rfl⟩

theorem quiet_cookStep {i : Nat} (hst : CookStep s i s') : Quiet s s' := by
  have hupdate : ∀ (o : Order) (j : Nat), o.is_delivered = (s.orders j).is_delivered →
      ∀ m, (Function.update s.orders j o m).is_delivered = (s.orders m).is_delivered := by
    intro o j ho m
    by_cases hm : m = j
    · subst hm
      rw [Function.update_self]
      exact ho
    · rw [Function.update_of_ne hm]
  cases hst with
  | claim _ _ => exact ⟨rfl, rfl, rfl, hupdate _ _ rfl⟩
  | ready _ => exact ⟨rfl, rfl, rfl, hupdate _ _ rfl⟩
  | _ => exact ⟨rfl, rfl, rfl, fun _ => rfl⟩

/-- **A thread's step is quiet, or delivers an order.** -/
theorem run_cases {t : Thread} (h : TableInv s) (hst : Step c s (.run t) s') :
    (Quiet s s' ∧ ∀ d k, t = .delivery d → s.deliverers d = .carrying k →
        (s.persons d).deliveries[k]? = none)
      ∨ ∃ d k j, t = .delivery d ∧ s.deliverers d = .carrying k
        ∧ (s.persons d).deliveries[k]? = some j
        ∧ s' = (deliver_order s j).setDelivery d (s.persons d) (.carrying (k + 1)) := by
  cases hst with
  | cook _ hst => exact .inl ⟨quiet_cookStep hst, nofun⟩
  | @delivery d _ _ hst =>
    have hat : ∀ {a : DeliveryAt}, s.deliverers d = a → (∀ k, a ≠ .carrying k) → ∀ e k,
        Thread.delivery d = .delivery e → s.deliverers e = .carrying k →
        (s.persons e).deliveries[k]? = none := by
      intro a ha hne e k heq hk
      cases heq
      exact absurd (ha.symm.trans hk) (hne k)
    cases hst with
    | @take orders q hscan htake _ =>
      obtain ⟨new, hnew⟩ := scan_takes h.toSlotsInv hscan htake
      refine .inl ⟨⟨rfl, rfl, rfl, fun j => ?_⟩, hat hscan nofun⟩
      show (orders j).is_delivered = _
      rw [hnew.table j]
      split <;> rfl
    | wait hscan htake hnil =>
      obtain ⟨rfl, rfl, _⟩ := scan_nil h.idle hscan htake hnil
      exact .inl ⟨⟨rfl, rfl, rfl, fun _ => rfl⟩, hat hscan nofun⟩
    | relock hwoken => exact .inl ⟨⟨rfl, rfl, rfl, fun _ => rfl⟩, hat hwoken nofun⟩
    | deliver hk hj => exact .inr ⟨d, _, _, rfl, hk, hj, rfl⟩
    | back hk hlen =>
      refine .inl ⟨⟨rfl, rfl, rfl, fun _ => rfl⟩, fun e m heq hm => ?_⟩
      cases heq
      rw [hk] at hm
      cases hm
      exact List.getElem?_eq_none hlen

/-! ## §3. Up to the message, and after it. -/

/-- Every connection that has been made and not been refused is in one place. -/
def places (p : Protocol) : List Nat := p.backlog ++ (p.readers ++ p.accepted)

/-- No message has been sent. -/
structure Open (N : Nat) (p : Protocol) : Prop where
  silent : p.shop.notified = []
  staying : p.closed = false
  sent : p.sent ≤ N
  generator : p.shop.client_gen_socket = generator ∧ generator ∉ p.backlog
    ∨ p.shop.client_gen_socket = 0 ∧ p.readers = [] ∧ p.accepted = []
      ∧ ∃ rest, p.backlog = generator :: rest
  nodup : (places p).Nodup
  mem : ∀ k ∈ places p, k = Completion.generator ∨ ∃ i < p.sent, k = orderSocket i
  orders : Completion.generator ∉ p.accepted
  length : p.accepted.length = p.shop.order_count
  served : ∀ k, k ∈ p.served ↔ ∃ j < p.shop.order_count, p.accepted[j]? = some k
    ∧ (p.shop.orders j).is_delivered = true

/-- The message has been sent, and the generator's socket is no longer the registered one. -/
structure Over (p : Protocol) : Prop where
  notified : generator ∈ p.shop.notified
  registered : p.shop.client_gen_socket ≠ generator
  backlog : generator ∉ p.backlog

theorem orderSocket_ne (i : Nat) : orderSocket i ≠ generator := by
  unfold orderSocket generator
  omega

theorem open_opened (N : Nat) (orders : Nat → Order) : Open N (opened orders) where
  silent := rfl
  staying := rfl
  sent := Nat.zero_le N
  generator := .inr ⟨rfl, rfl, rfl, [], rfl⟩
  nodup := List.nodup_singleton _
  mem := fun _ hk => .inl (List.mem_singleton.mp hk)
  orders := nofun
  length := rfl
  served := fun _ => ⟨nofun, fun ⟨j, hj, _⟩ => absurd hj (Nat.not_lt_zero j)⟩

/-- Steps that leave the places and the session alone. -/
theorem Open.quiet (h : Open N p) (hq : Quiet p.shop s') : Open N { p with shop := s' } where
  silent := hq.notified.trans h.silent
  staying := h.staying
  sent := h.sent
  generator := by
    show s'.client_gen_socket = _ ∧ _ ∨ s'.client_gen_socket = 0 ∧ _
    rw [hq.client_gen_socket]
    exact h.generator
  nodup := h.nodup
  mem := h.mem
  orders := h.orders
  length := h.length.trans hq.order_count.symm
  served := by
    intro k
    show k ∈ p.served ↔ ∃ j < s'.order_count, p.accepted[j]? = some k
      ∧ (s'.orders j).is_delivered = true
    rw [hq.order_count]
    simp only [hq.delivered]
    exact h.served k

theorem open_connect (h : Open N p) (hsent : p.sent < N) :
    Open N { p with sent := p.sent + 1, backlog := p.backlog ++ [orderSocket p.sent] } := by
  -- the new connection is none of the earlier ones
  have hnew : orderSocket p.sent ∉ places p := by
    intro hmem
    rcases h.mem _ hmem with heq | ⟨i, hi, heq⟩
    · exact orderSocket_ne _ heq
    · unfold orderSocket at heq
      omega
  have hperm : (p.backlog ++ [orderSocket p.sent] ++ (p.readers ++ p.accepted)).Perm
      (orderSocket p.sent :: places p) := by
    rw [List.append_assoc]
    exact List.perm_middle
  refine ⟨h.silent, h.staying, hsent, ?_, ?_, fun k hk => ?_, h.orders, h.length, h.served⟩
  · rcases h.generator with ⟨hreg, hback⟩ | ⟨hreg, hread, hacc, rest, hback⟩
    · refine .inl ⟨hreg, fun hmem => ?_⟩
      rcases List.mem_append.mp hmem with hmem | hmem
      · exact hback hmem
      · exact orderSocket_ne _ (List.mem_singleton.mp hmem).symm
    · exact .inr ⟨hreg, hread, hacc, rest ++ [orderSocket p.sent], by rw [hback]; rfl⟩
  · exact hperm.nodup_iff.mpr (List.nodup_cons.mpr ⟨hnew, h.nodup⟩)
  · rcases List.mem_cons.mp (hperm.mem_iff.mp hk) with rfl | hk
    · exact .inr ⟨p.sent, Nat.lt_succ_self _, rfl⟩
    · exact (h.mem k hk).imp_right fun ⟨i, hi, heq⟩ => ⟨i, Nat.lt_succ_of_lt hi, heq⟩

theorem open_accept {k : Nat} {rest : List Nat} (h : Open N p) (hback : p.backlog = k :: rest) :
    Open N { p with
      shop := { p.shop with client_gen_socket := if p.shop.client_gen_socket = 0 then k
                                                 else p.shop.client_gen_socket }
      backlog := rest
      readers := p.readers ++ [k] } := by
  have hperm : (rest ++ (p.readers ++ [k] ++ p.accepted)).Perm (places p) := by
    unfold places
    rw [hback, List.append_assoc, List.singleton_append, ← List.append_assoc, List.cons_append,
      ← List.append_assoc]
    exact List.perm_middle
  have hnodup := h.nodup
  unfold places at hnodup
  rw [hback, List.cons_append, List.nodup_cons, List.mem_append, not_or] at hnodup
  refine ⟨h.silent, h.staying, h.sent, .inl ?_, hperm.nodup_iff.mpr h.nodup,
    fun m hm => h.mem m (hperm.mem_iff.mp hm), h.orders, h.length, h.served⟩
  rcases h.generator with ⟨hreg, hnot⟩ | ⟨hreg, _, _, rest', hback'⟩
  · refine ⟨?_, fun hmem => hnot (by rw [hback]; exact List.mem_cons_of_mem k hmem)⟩
    show (if p.shop.client_gen_socket = 0 then k else p.shop.client_gen_socket) = _
    rw [hreg]
    exact if_neg (by decide)
  · -- the first connection is the generator's
    rw [hback] at hback'
    cases hback'
    exact ⟨if_pos hreg, hnodup.1.1⟩

theorem erase_places {k : Nat} (hk : k ∈ p.readers) :
    (p.backlog ++ (p.readers.erase k ++ (p.accepted ++ [k]))).Perm (places p) := by
  unfold places
  refine List.Perm.append_left _ ?_
  rw [← List.append_assoc]
  refine List.perm_append_comm.trans ?_
  rw [List.singleton_append, ← List.cons_append]
  exact (List.perm_cons_erase hk).symm.append_right _

theorem open_handle {k : Nat} {x y : Int} (h : Open N p) (hk : k ∈ p.readers)
    (hgen : k = generator → p.closed = true) :
    Open N { p with shop := handle_client p.shop x y, readers := p.readers.erase k,
                    accepted := p.accepted ++ [k] } := by
  have hperm := erase_places hk
  have hkgen : k ≠ generator := by
    intro heq
    have := hgen heq
    rw [h.staying] at this
    cases this
  refine ⟨h.silent, h.staying, h.sent, .inl ?_, hperm.nodup_iff.mpr h.nodup,
    fun m hm => h.mem m (hperm.mem_iff.mp hm), ?_, ?_, fun m => ?_⟩
  · rcases h.generator with hreg | ⟨_, hread, _⟩
    · exact hreg
    · rw [hread] at hk
      cases hk
  · intro hmem
    rcases List.mem_append.mp hmem with hmem | hmem
    · exact h.orders hmem
    · exact hkgen (List.mem_singleton.mp hmem).symm
  · show (p.accepted ++ [k]).length = p.shop.order_count + 1
    rw [List.length_append, h.length]
    rfl
  · show m ∈ p.served ↔ ∃ j < p.shop.order_count + 1, (p.accepted ++ [k])[j]? = some m
      ∧ (Function.update p.shop.orders p.shop.order_count _ j).is_delivered = true
    rw [h.served m]
    constructor
    · intro hold
      obtain ⟨j, hj, hacc, hdel⟩ := hold
      refine ⟨j, Nat.lt_succ_of_lt hj, ?_, ?_⟩
      · rw [List.getElem?_append_left (by rw [h.length]; exact hj)]
        exact hacc
      · rw [Function.update_of_ne (Nat.ne_of_lt hj)]
        exact hdel
    · intro hnew
      obtain ⟨j, hj, hacc, hdel⟩ := hnew
      rcases Nat.lt_succ_iff_lt_or_eq.mp hj with hj | rfl
      · rw [List.getElem?_append_left (by rw [h.length]; exact hj)] at hacc
        rw [Function.update_of_ne (Nat.ne_of_lt hj)] at hdel
        exact ⟨j, hj, hacc, hdel⟩
      · -- the new order has not been delivered
        rw [Function.update_self] at hdel
        cases hdel

theorem open_refuse {k : Nat} (h : Open N p) (hk : k ∈ p.readers) :
    Open N { p with readers := p.readers.erase k } := by
  have hsub : (p.backlog ++ (p.readers.erase k ++ p.accepted)).Sublist (places p) :=
    List.Sublist.append_left (List.Sublist.append_right List.erase_sublist _) _
  refine ⟨h.silent, h.staying, h.sent, .inl ?_, h.nodup.sublist hsub,
    fun m hm => h.mem m (hsub.subset hm), h.orders, h.length, h.served⟩
  rcases h.generator with hreg | ⟨_, hread, _⟩
  · exact hreg
  · rw [hread] at hk
    cases hk

theorem delivers_eq {d k j : Nat} (hat : p.shop.deliverers d = .carrying k)
    (hj : (p.shop.persons d).deliveries[k]? = some j) :
    delivers p (.delivery d) = p.accepted[j]? := by
  simp only [delivers, hat, hj, Option.bind_some]

/-- Counting a delivery adds its connection to those served. -/
theorem served_counted {d k j m : Nat} (h : Open N p) (hlt : j < p.shop.order_count)
    (hat : p.shop.deliverers d = .carrying k)
    (hj : (p.shop.persons d).deliveries[k]? = some j) :
    m ∈ p.served ++ (delivers p (.delivery d)).toList ↔ ∃ i < p.shop.order_count,
      p.accepted[i]? = some m ∧ ((counted p.shop d k j).orders i).is_delivered = true := by
  obtain ⟨socket, hsocket⟩ : ∃ socket, p.accepted[j]? = some socket :=
    ⟨_, List.getElem?_eq_getElem (by rw [h.length]; exact hlt)⟩
  have hself : ((counted p.shop d k j).orders j).is_delivered = true := by
    rw [show (counted p.shop d k j).orders j = { p.shop.orders j with is_delivered := true } from
      Function.update_self ..]
  have hother : ∀ i, i ≠ j → (counted p.shop d k j).orders i = p.shop.orders i := fun i hi =>
    Function.update_of_ne hi _ _
  rw [delivers_eq hat hj, hsocket, Option.toList_some, List.mem_append, List.mem_singleton,
    h.served m]
  constructor
  · intro hmem
    rcases hmem with ⟨i, hi, hacc, hdel⟩ | rfl
    · by_cases hij : i = j
      · exact ⟨i, hi, hacc, hij ▸ hself⟩
      · exact ⟨i, hi, hacc, by rw [hother i hij]; exact hdel⟩
    · exact ⟨j, hlt, hsocket, hself⟩
  · intro hmem
    obtain ⟨i, hi, hacc, hdel⟩ := hmem
    by_cases hij : i = j
    · subst hij
      exact .inr (Option.some.inj (hacc.symm.trans hsocket))
    · rw [hother i hij] at hdel
      exact .inl ⟨i, hi, hacc, hdel⟩

/-- The step that sends the message: the order delivered was the only one left, and those served
    are those on the table. -/
structure Sends (p : Protocol) (t : Thread) (s' : Shop) : Prop where
  last : ∃ d k j, t = .delivery d ∧ p.shop.deliverers d = .carrying k
    ∧ (p.shop.persons d).deliveries[k]? = some j
  counters : p.shop.delivered_count + 1 = p.shop.order_count
  registered : p.shop.client_gen_socket = generator
  notified : s'.notified = [generator]
  reset : s'.client_gen_socket = 0
  served : ∀ m, m ∈ p.served ++ (delivers p t).toList ↔ m ∈ p.accepted

/-- **A thread's step before the message**: it sends the message, or the session goes on. -/
theorem open_run {t : Thread} (h : Open N p) (ht : TableInv p.shop)
    (hst : Step c p.shop (.run t) s') :
    Open N { p with shop := s', accepted := if s'.order_count = 0 then [] else p.accepted,
                    served := p.served ++ (delivers p t).toList }
      ∨ Sends p t s' := by
  rcases run_cases ht hst with ⟨hq, hnone⟩ | ⟨d, k, j, rfl, hat, hj, heq⟩
  · left
    -- Nothing is delivered, and the table keeps its length.
    have hserved : (delivers p t).toList = [] := by
      cases t with
      | cook i => rfl
      | delivery d =>
        cases hat : p.shop.deliverers d with
        | carrying k =>
          simp only [delivers, hat, hnone d k rfl hat, Option.bind_none, Option.toList_none]
        | _ => simp only [delivers, hat, Option.toList_none]
    have haccepted : (if s'.order_count = 0 then [] else p.accepted) = p.accepted := by
      split
      · next hzero =>
        rw [hq.order_count, ← h.length] at hzero
        exact (List.eq_nil_of_length_eq_zero hzero).symm
      · rfl
    rw [hserved, List.append_nil, haccepted]
    exact h.quiet hq
  · obtain ⟨hk, hget⟩ := List.getElem?_eq_some_iff.mp hj
    have hlt : j < p.shop.order_count := (ht.carrying d k hat j
      (List.mem_drop_iff_getElem.mpr ⟨0, by omega, by simpa using hget⟩)).lt
    -- An order is carried, so orders were accepted, and the generator before them.
    have hreg : p.shop.client_gen_socket = generator ∧ generator ∉ p.backlog := by
      rcases h.generator with hreg | ⟨_, _, hacc, _⟩
      · exact hreg
      · have := h.length
        rw [hacc, List.length_nil] at this
        omega
    rcases (deliver_cases ht hat hj heq).2 with ⟨hcounted, hpos⟩ | ⟨_, _, hnot, hzero, hlast⟩
    · left
      rw [if_neg (Nat.ne_of_gt hpos)]
      subst hcounted
      exact ⟨h.silent, h.staying, h.sent, .inl hreg, h.nodup, h.mem, h.orders, h.length,
        fun _ => served_counted h hlt hat hj⟩
    · right
      refine ⟨⟨d, k, j, rfl, hat, hj⟩, hlast, hreg.1, ?_, hzero, fun m => ?_⟩
      · rw [hnot, h.silent, hreg.1]
        rfl
      · -- all orders on the table have been delivered by now
        have hall := all_delivered ((slotsInv_counted ht.toSlotsInv hat hj).count.symm.trans hlast)
        rw [served_counted h hlt hat hj, List.mem_iff_getElem?]
        constructor
        · intro hmem
          obtain ⟨i, _, hacc, _⟩ := hmem
          exact ⟨i, hacc⟩
        · intro hmem
          obtain ⟨i, hacc⟩ := hmem
          have hi : i < p.shop.order_count := by
            rw [← h.length]
            exact (List.getElem?_eq_some_iff.mp hacc).1
          exact ⟨i, hi, hacc, hall i hi⟩

/-- **One move before the message.** -/
theorem move_cases (h : Open N p) (ht : TableInv p.shop) (hst : Move c N p e p') :
    Open N p' ∨ ∃ t, e = .thread (.run t) ∧ Sends p t p'.shop ∧ p'.backlog = p.backlog
      ∧ p'.served = p.served ++ (delivers p t).toList := by
  cases hst with
  | connect hsent => exact .inl (open_connect h hsent)
  | accept hback hst =>
    cases hst
    exact .inl (open_accept h hback)
  | @handle k x y _ _ hk hgen hst =>
    left
    cases hst with
    | order _ _ _ hsig =>
      have hnew := @open_handle N p _ x y h hk hgen
      cases hsig with
      | wakes _ => exact hnew.quiet (quiet_wake _ _)
      | nobody _ => exact hnew
  | refuse hk _ hst =>
    cases hst
    exact .inl (open_refuse h hk)
  | run hst =>
    rcases open_run h ht hst with hopen | hsends
    · exact .inl hopen
    · exact .inr ⟨_, rfl, hsends, rfl, rfl⟩
  | spurious hst =>
    cases hst
    exact .inl (h.quiet (quiet_wake _ _))
  | hangUp hnot =>
    rw [h.silent] at hnot
    cases hnot

theorem notified_grows {l : Label} (hst : Step c s l s') {k : Nat} (hk : k ∈ s.notified) :
    k ∈ s'.notified := by
  cases hst with
  | order _ _ _ hsig =>
    cases hsig with
    | wakes _ =>
      rw [(quiet_wake _ _).notified]
      exact hk
    | nobody _ => exact hk
  | cook _ hst => cases hst <;> exact hk
  | delivery _ hst =>
    cases hst with
    | deliver _ _ =>
      unfold deliver_order check_and_notify_all_delivered
      split
      · exact List.mem_append_left _ hk
      · exact hk
    | _ => exact hk
  | spurious _ =>
    rw [(quiet_wake _ _).notified]
    exact hk
  | _ => exact hk

/-- Once it has been given up, the generator's socket is not registered again. -/
theorem registered_ne {l : Label} (hst : Step c s l s') (h : s.client_gen_socket ≠ generator)
    (hl : ∀ k, l = .accept k → k ≠ generator) : s'.client_gen_socket ≠ generator := by
  cases hst with
  | accept k =>
    -- The first socket accepted after the message is registered, and it is another one.
    show (if s.client_gen_socket = 0 then k else s.client_gen_socket) ≠ generator
    split
    · exact hl k rfl
    · exact h
  | order _ _ _ hsig =>
    cases hsig with
    | wakes _ =>
      rw [(quiet_wake _ _).client_gen_socket]
      exact h
    | nobody _ => exact h
  | cook _ hst => cases hst <;> exact h
  | delivery _ hst =>
    cases hst with
    | deliver _ _ =>
      unfold deliver_order check_and_notify_all_delivered
      split
      · exact nofun
      · exact h
    | _ => exact h
  | spurious _ =>
    rw [(quiet_wake _ _).client_gen_socket]
    exact h
  | refused _ => exact h

/-- After the message the session stays over, and those served stay served. -/
theorem over_move (h : Over p) (hst : Move c N p e p') :
    Over p' ∧ ∀ k ∈ p.served, k ∈ p'.served := by
  obtain ⟨hnot, hreg, hback⟩ := h
  cases hst with
  | connect _ =>
    refine ⟨⟨hnot, hreg, fun hmem => ?_⟩, fun _ hk => hk⟩
    rcases List.mem_append.mp hmem with hmem | hmem
    · exact hback hmem
    · exact orderSocket_ne _ (List.mem_singleton.mp hmem).symm
  | accept hb hst =>
    rw [hb, List.mem_cons, not_or] at hback
    refine ⟨⟨notified_grows hst hnot, registered_ne hst hreg fun k heq => ?_, hback.2⟩,
      fun _ hk => hk⟩
    cases heq
    exact fun heq => hback.1 heq.symm
  | handle _ _ hst =>
    exact ⟨⟨notified_grows hst hnot, registered_ne hst hreg nofun, hback⟩, fun _ hk => hk⟩
  | refuse _ _ hst =>
    exact ⟨⟨notified_grows hst hnot, registered_ne hst hreg nofun, hback⟩, fun _ hk => hk⟩
  | run hst =>
    exact ⟨⟨notified_grows hst hnot, registered_ne hst hreg nofun, hback⟩,
      fun _ hk => List.mem_append_left _ hk⟩
  | spurious hst =>
    exact ⟨⟨notified_grows hst hnot, registered_ne hst hreg nofun, hback⟩, fun _ hk => hk⟩
  | hangUp _ => exact ⟨⟨hnot, hreg, hback⟩, fun _ hk => hk⟩

/-- Every move takes the shop through one step, or leaves it alone. -/
theorem tableInv_move (ht : TableInv p.shop) (hst : Move c N p e p') : TableInv p'.shop := by
  cases hst with
  | connect _ => exact ht
  | accept _ hst => exact tableInv_step ht hst
  | handle _ _ hst => exact tableInv_step ht hst
  | refuse _ _ hst => exact tableInv_step ht hst
  | run hst => exact tableInv_step ht hst
  | spurious hst => exact tableInv_step ht hst
  | hangUp _ => exact ht

/-- The session ends with the message. -/
theorem over_of_sends {t : Thread} (h : Open N p) (hsends : Sends p t p'.shop)
    (hback : p'.backlog = p.backlog) : Over p' := by
  refine ⟨?_, ?_, ?_⟩
  · rw [hsends.notified]
    exact List.mem_singleton_self _
  · rw [hsends.reset]
    exact nofun
  · rcases h.generator with ⟨_, hnot⟩ | ⟨hreg, _⟩
    · rw [hback]
      exact hnot
    · rw [hsends.registered] at hreg
      cases hreg

theorem open_or_over (hp : (protocol c N).Reachable p) : TableInv p.shop ∧ (Open N p ∨ Over p) := by
  refine hp.invariant (I := fun p => TableInv p.shop ∧ (Open N p ∨ Over p)) ?_ ?_
  · intro p hinit
    obtain ⟨orders, rfl⟩ := hinit
    exact ⟨tableInv_opening orders, .inl (open_opened N orders)⟩
  · intro p e p' hinv hst
    obtain ⟨ht, hphase⟩ := hinv
    refine ⟨tableInv_move ht hst, ?_⟩
    rcases hphase with hopen | hover
    · rcases move_cases hopen ht hst with hopen' | ⟨t, _, hsends, hback, _⟩
      · exact .inl hopen'
      · exact .inr (over_of_sends hopen hsends hback)
    · exact .inr (over_move hover hst).1

/-! ## §4. What the message means. -/

/-- Before the message, the orders on the table are different ones of the generator. -/
theorem Open.accepted_of (h : Open N p) : p.accepted.Nodup ∧ ∀ k ∈ p.accepted, ∃ i < N, k = orderSocket i := by
  have hnodup := h.nodup
  unfold places at hnodup
  refine ⟨(List.nodup_append.mp (List.nodup_append.mp hnodup).2.1).2.1, fun k hk => ?_⟩
  rcases h.mem k (List.mem_append_right _ (List.mem_append_right _ hk)) with rfl | ⟨i, hi, heq⟩
  · exact absurd hk h.orders
  · exact ⟨i, lt_of_lt_of_le hi h.sent, heq⟩

/-- They are all `N` orders exactly when they are `N`. -/
theorem Open.accepted_all (h : Open N p) :
    (∀ i < N, orderSocket i ∈ p.accepted) ↔ p.shop.order_count = N := by
  obtain ⟨hnodup, hmem⟩ := h.accepted_of
  -- Distinct ones among `N`: all of them exactly when there are `N`.
  have hsub : p.accepted.toFinset ⊆ (Finset.range N).image orderSocket := by
    intro k hk
    obtain ⟨i, hi, rfl⟩ := hmem k (List.mem_toFinset.mp hk)
    exact Finset.mem_image_of_mem _ (Finset.mem_range.mpr hi)
  have hcard : ((Finset.range N).image orderSocket).card = N := by
    have hinj : Function.Injective orderSocket := fun i j hij => Nat.add_right_cancel hij
    rw [Finset.card_image_of_injective _ hinj, Finset.card_range]
  have hlen : p.accepted.toFinset.card = p.shop.order_count := by
    rw [List.toFinset_card_of_nodup hnodup, h.length]
  constructor
  · intro hall
    have hsup : (Finset.range N).image orderSocket ⊆ p.accepted.toFinset := by
      intro k hk
      obtain ⟨i, hi, rfl⟩ := Finset.mem_image.mp hk
      exact List.mem_toFinset.mpr (hall i (Finset.mem_range.mp hi))
    rw [← hlen, ← hcard, hsub.antisymm hsup]
  · intro hcount i hi
    have heq := Finset.eq_of_subset_of_card_le hsub (by rw [hcard, hlen, hcount])
    exact List.mem_toFinset.mp (heq ▸ Finset.mem_image_of_mem _ (Finset.mem_range.mpr hi))

/-- **The message, when it is sent, is right exactly when the table holds all orders.** -/
theorem completed_iff {t : Thread} (h : Open N p) (hsends : Sends p t p'.shop)
    (hserved : p'.served = p.served ++ (delivers p t).toList) :
    Completed N p' ↔ p.shop.order_count = N := by
  rw [← h.accepted_all]
  have hnot : generator ∈ p'.shop.notified := by
    rw [hsends.notified]
    exact List.mem_singleton_self _
  constructor
  · intro hdone i hi
    exact (hsends.served _).mp (hserved ▸ hdone hnot i hi)
  · intro hall _ i hi
    rw [hserved]
    exact (hsends.served _).mpr (hall i hi)

/-- A delivery of the last order on the table sends the message. -/
theorem sends_of_last {d k j : Nat} (h : Open N p) (ht : TableInv p.shop)
    (hst : Move c N p (.thread (.run (.delivery d))) p') (hat : p.shop.deliverers d = .carrying k)
    (hj : (p.shop.persons d).deliveries[k]? = some j)
    (hlast : p.shop.delivered_count + 1 = p.shop.order_count) :
    Sends p (.delivery d) p'.shop ∧ p'.served = p.served ++ (delivers p (.delivery d)).toList := by
  rcases move_cases h ht hst with hopen | ⟨t, heq, hsends, _, hserved⟩
  · -- the counters meet, so the session is not open any more
    exfalso
    cases hst with
    | run hst =>
    rcases run_cases ht hst with ⟨_, hnone⟩ | ⟨d', k', j', heq, hat', hj', hs⟩
    · rw [hnone d k rfl hat] at hj
      cases hj
    · cases heq
      rcases (deliver_cases ht hat' hj' hs).2 with ⟨hcounted, hpos⟩ | ⟨_, _, hnot, _⟩
      · have hundone := (tableInv_step ht hst).undone
        rw [hcounted] at hundone hpos
        have h1 : (counted p.shop d k' j').delivered_count = p.shop.delivered_count + 1 := rfl
        have h2 : (counted p.shop d k' j').order_count = p.shop.order_count := rfl
        omega
      · have := hopen.silent
        rw [show _ = p.shop.notified ++ [p.shop.client_gen_socket] from hnot] at this
        exact absurd this (by simp)
  · cases heq
    exact ⟨hsends, hserved⟩

/-- The message is not sent early in a run of complete tables. -/
theorem completed_reachable (hp : ((protocol c N).restrict (TableComplete N)).Reachable p) :
    Completed N p := by
  have hinv : TableInv p.shop ∧ (Open N p ∨ Over p ∧ Completed N p) := by
    refine hp.invariant (I := fun p => TableInv p.shop ∧ (Open N p ∨ Over p ∧ Completed N p)) ?_ ?_
    · intro p hinit
      obtain ⟨orders, rfl⟩ := hinit
      exact ⟨tableInv_opening orders, .inl (open_opened N orders)⟩
    · intro p e p' hinv hstep
      obtain ⟨ht, hphase⟩ := hinv
      obtain ⟨hcomplete, hst⟩ := hstep
      refine ⟨tableInv_move ht hst, ?_⟩
      rcases hphase with hopen | ⟨hover, hdone⟩
      -- The step that sends is the one at which the table has to be complete.
      · rcases move_cases hopen ht hst with hopen' | ⟨t, rfl, hsends, hback, hserved⟩
        · exact .inl hopen'
        · obtain ⟨d, k, j, rfl, hat, hj⟩ := hsends.last
          exact .inr ⟨over_of_sends hopen hsends hback, (completed_iff hopen hsends hserved).mpr
            (hcomplete k j hat hj hsends.counters hsends.registered)⟩
      · obtain ⟨hover', hgrow⟩ := over_move hover hst
        exact .inr ⟨hover', fun _ i hi => hgrow _ (hdone hover.notified i hi)⟩
  rcases hinv.2 with hopen | ⟨_, hdone⟩
  · intro hnot
    rw [hopen.silent] at hnot
    cases hnot
  · exact hdone

/-- A step that misses the condition is the delivery of the last order on a table without all. -/
theorem not_tableComplete (h : ¬ TableComplete N p e) : ∃ d k j, e = .thread (.run (.delivery d))
    ∧ p.shop.deliverers d = .carrying k ∧ (p.shop.persons d).deliveries[k]? = some j
    ∧ p.shop.delivered_count + 1 = p.shop.order_count ∧ p.shop.client_gen_socket = generator
    ∧ p.shop.order_count ≠ N := by
  cases e with
  | thread l =>
    cases l with
    | run t =>
      cases t with
      | delivery d =>
        unfold TableComplete at h
        push Not at h
        obtain ⟨k, j, hat, hj, hlast, hreg, hne⟩ := h
        exact ⟨d, k, j, rfl, hat, hj, hlast, hreg, hne⟩
      | cook i => exact absurd trivial h
    | _ => exact absurd trivial h
  | _ => exact absurd trivial h

end SystemOS.PideShop.Completion
