/-
  SystemOS.PideShop.Server — the pide shop server: the order table, its cooks, its delivery persons.

  Every critical section of `orders_mutex` is one step.  Cooks and delivery persons wait on the same
  condition variable `orders_cond`: a signal wakes any one of the waiting threads, a broadcast all
  of them, and a waiting thread may also wake up by itself.

  An arriving connection hands `handle_client` the coordinates that its `sscanf` stored; the texts
  written to the log, the addresses and the time stamps are read by nobody and left out.
-/
import SystemOS.Lib.Transition

namespace SystemOS.PideShop.Server

open SystemOS.Lib.Transition

/-! ## §1. Data. -/

def MAX_ORDERS : Nat := 100

def MAX_DELIVERY_CAPACITY : Nat := 3

structure Order where
  id : Nat
  is_being_prepared : Bool
  is_in_oven : Bool
  is_ready : Bool
  is_delivered : Bool
  cancelled : Bool
  x : Int
  y : Int
  delivery_person_id : Int

/-- A delivery person; `deliveries` are the first `delivery_count` entries of the array. -/
structure DeliveryPerson where
  busy : Bool
  deliveries : List Nat

/-- Where a cook is: about to scan, in `pthread_cond_wait`, woken, or cooking an order. -/
inductive CookAt
  | scanning
  | waiting
  | woken
  | cooking (i : Nat)

/-- Where a delivery person is; `carrying k` is about to deliver entry `k` of its list. -/
inductive DeliveryAt
  | scanning
  | waiting
  | woken
  | carrying (k : Nat)

/-- The pool sizes given on the command line. -/
structure Config where
  cook_pool_size : Nat
  delivery_pool_size : Nat

/-- Pools with at least one thread each. -/
structure Staffed extends Config where
  cooks_pos : 0 < cook_pool_size
  deliveries_pos : 0 < delivery_pool_size

instance : Coe Staffed Config := ⟨Staffed.toConfig⟩

structure Shop where
  orders : Nat → Order
  order_count : Nat
  delivered_count : Nat
  cooks : Nat → CookAt
  persons : Nat → DeliveryPerson
  deliverers : Nat → DeliveryAt
  /-- The socket of the client generator, 0 when there is none. -/
  client_gen_socket : Nat
  /-- The sockets to which "All orders delivered" was written. -/
  notified : List Nat

/-! ## §2. The critical sections. -/

/-- The order that `handle_client` writes at `order_count`. -/
def newOrder (id : Nat) (x y : Int) : Order :=
  { id := id, is_being_prepared := false, is_in_oven := false, is_ready := false,
    is_delivered := false, cancelled := false, x := x, y := y, delivery_person_id := -1 }

/-- `handle_client`, when there is room. -/
def handle_client (s : Shop) (x y : Int) : Shop :=
  { s with
    orders := Function.update s.orders s.order_count (newOrder s.order_count x y)
    order_count := s.order_count + 1 }

/-- The test of `cook_function`. -/
def claimable (o : Order) : Bool :=
  !o.is_being_prepared && !o.is_in_oven && !o.is_ready && !o.is_delivered && !o.cancelled

/-- The scan of `cook_function`, from order `i` on. -/
def findOrder (orders : Nat → Order) : Nat → Nat → Option Nat
  | 0, _ => none
  | fuel + 1, i => if claimable (orders i) then some i else findOrder orders fuel (i + 1)

/-- The claim of order `i`. -/
def claim (s : Shop) (i : Nat) : Shop :=
  { s with orders := Function.update s.orders i { s.orders i with is_being_prepared := true } }

/-- The order is marked ready. -/
def markReady (s : Shop) (i : Nat) : Shop :=
  { s with
    orders := Function.update s.orders i
      { s.orders i with is_ready := true, is_in_oven := false } }

/-- The test of `delivery_function`, on the order. -/
def takeable (o : Order) : Bool :=
  o.is_ready && !o.is_delivered && !o.cancelled && decide (o.delivery_person_id = -1)

/-- The scan of `delivery_function`, from order `i` on. -/
def takeOrders (d : Nat) : Nat → Nat → (Nat → Order) → DeliveryPerson →
    (Nat → Order) × DeliveryPerson
  | 0, _, orders, p => (orders, p)
  | fuel + 1, i, orders, p =>
    if takeable (orders i) && !p.busy then
      let p := { p with deliveries := p.deliveries ++ [(orders i).id] }
      let orders := Function.update orders i { orders i with delivery_person_id := d }
      if p.deliveries.length = MAX_DELIVERY_CAPACITY then (orders, p)
      else takeOrders d fuel (i + 1) orders p
    else takeOrders d fuel (i + 1) orders p

/-- `check_and_notify_all_delivered`. -/
def check_and_notify_all_delivered (s : Shop) : Shop :=
  if s.delivered_count = s.order_count then
    { s with notified := s.notified ++ [s.client_gen_socket], client_gen_socket := 0,
             delivered_count := 0, order_count := 0 }
  else s

/-- The critical section of `deliver_order`. -/
def deliver_order (s : Shop) (i : Nat) : Shop :=
  check_and_notify_all_delivered
    { s with orders := Function.update s.orders i { s.orders i with is_delivered := true },
             delivered_count := s.delivered_count + 1 }

/-! ## §3. The condition variable. -/

inductive Thread
  | cook (i : Nat)
  | delivery (d : Nat)

def Shop.setCook (s : Shop) (i : Nat) (a : CookAt) : Shop :=
  { s with cooks := Function.update s.cooks i a }

def Shop.setDelivery (s : Shop) (d : Nat) (p : DeliveryPerson) (a : DeliveryAt) : Shop :=
  { s with persons := Function.update s.persons d p,
           deliverers := Function.update s.deliverers d a }

/-- The thread is blocked in `pthread_cond_wait`. -/
def waits (c : Config) (s : Shop) : Thread → Prop
  | .cook i => i < c.cook_pool_size ∧ s.cooks i = .waiting
  | .delivery d => d < c.delivery_pool_size ∧ s.deliverers d = .waiting

def wake (s : Shop) : Thread → Shop
  | .cook i => s.setCook i .woken
  | .delivery d => s.setDelivery d (s.persons d) .woken

/-- `pthread_cond_signal`: one waiting thread is woken, or there is none. -/
inductive Signal (c : Config) (s : Shop) : Option Thread → Shop → Prop
  | wakes {t : Thread} : waits c s t → Signal c s (some t) (wake s t)
  | nobody : (∀ t, ¬ waits c s t) → Signal c s none s

/-- `pthread_cond_broadcast`. -/
def broadcast (s : Shop) : Shop :=
  { s with
    cooks := fun i => match s.cooks i with
      | .waiting => .woken
      | a => a
    deliverers := fun d => match s.deliverers d with
      | .waiting => .woken
      | a => a }

/-! ## §4. The steps. -/

/-- What happens: a client generator connects, an order arrives and the signal wakes a thread (or
    nobody), or a thread takes a step or wakes up by itself. -/
inductive Label
  | accept (socket : Nat)
  | order (x y : Int) (woken : Option Thread)
  | refused
  | run (t : Thread)
  | spurious (t : Thread)

inductive CookStep (s : Shop) (i : Nat) : Shop → Prop
  | claim {j : Nat} : s.cooks i = .scanning → findOrder s.orders s.order_count 0 = some j →
      CookStep s i ((claim s j).setCook i (.cooking j))
  | wait : s.cooks i = .scanning → findOrder s.orders s.order_count 0 = none →
      CookStep s i (s.setCook i .waiting)
  | relock : s.cooks i = .woken → CookStep s i (s.setCook i .scanning)
  | ready {j : Nat} : s.cooks i = .cooking j →
      CookStep s i (broadcast ((markReady s j).setCook i .scanning))

inductive DeliveryStep (s : Shop) (d : Nat) : Shop → Prop
  | take {orders : Nat → Order} {p : DeliveryPerson} : s.deliverers d = .scanning →
      takeOrders d s.order_count 0 s.orders (s.persons d) = (orders, p) → p.deliveries ≠ [] →
      DeliveryStep s d ({ s with orders := orders }.setDelivery d { p with busy := true }
        (.carrying 0))
  | wait {orders : Nat → Order} {p : DeliveryPerson} : s.deliverers d = .scanning →
      takeOrders d s.order_count 0 s.orders (s.persons d) = (orders, p) → p.deliveries = [] →
      DeliveryStep s d ({ s with orders := orders }.setDelivery d p .waiting)
  | relock : s.deliverers d = .woken → DeliveryStep s d (s.setDelivery d (s.persons d) .scanning)
  | deliver {k j : Nat} : s.deliverers d = .carrying k → (s.persons d).deliveries[k]? = some j →
      DeliveryStep s d ((deliver_order s j).setDelivery d (s.persons d) (.carrying (k + 1)))
  | back {k : Nat} : s.deliverers d = .carrying k → (s.persons d).deliveries.length ≤ k →
      DeliveryStep s d (broadcast (s.setDelivery d ⟨false, []⟩ .scanning))

inductive Step (c : Config) (s : Shop) : Label → Shop → Prop
  -- only the first connection of a session is the generator's
  | accept (socket : Nat) : Step c s (.accept socket)
      { s with client_gen_socket := if s.client_gen_socket = 0 then socket
                                    else s.client_gen_socket }
  | order (x y : Int) {t : Option Thread} {s' : Shop} : s.order_count < MAX_ORDERS →
      Signal c (handle_client s x y) t s' → Step c s (.order x y t) s'
  | refused : MAX_ORDERS ≤ s.order_count → Step c s .refused s
  | cook {i : Nat} {s' : Shop} : i < c.cook_pool_size → CookStep s i s' →
      Step c s (.run (.cook i)) s'
  | delivery {d : Nat} {s' : Shop} : d < c.delivery_pool_size → DeliveryStep s d s' →
      Step c s (.run (.delivery d)) s'
  | spurious {t : Thread} : waits c s t → Step c s (.spurious t) (wake s t)

/-- The shop when its threads have been created: nobody waits, the table is empty. -/
def opening (orders : Nat → Order) : Shop where
  orders := orders
  order_count := 0
  delivered_count := 0
  cooks := fun _ => .scanning
  persons := fun _ => ⟨false, []⟩
  deliverers := fun _ => .scanning
  client_gen_socket := 0
  notified := []

def shopSystem (c : Config) : System Shop Label where
  init s := ∃ orders, s = opening orders
  step := Step c

end SystemOS.PideShop.Server
