/-
  SystemOS.PideShop.OrderParsing — the text of an order, between `client.c` and `server.c`.

  The client prints three integers into a sentence; `handle_client` reads two of them back with
  `sscanf`, into coordinates that it has set to 0, and does not look at what `sscanf` returns.

  Main results:
    * `receive_step`    — what a message does is the arrival of an order, or a refusal.
    * `coordinates_order` — the coordinates of an order come through.
    * `parses_iff`      — when exactly the orders of the client are accepted.
-/
import SystemOS.Lib.Buffers
import SystemOS.Lib.Scanf
import SystemOS.PideShop.Server

namespace SystemOS.PideShop.OrderParsing

open SystemOS.Lib.Lines SystemOS.Lib.Buffers SystemOS.Lib.Scanf
open SystemOS.PideShop.Server

/-! ## §1. The two sides. -/

def MAX_BUFFER : Nat := 1024

def text (s : String) : Bytes := s.toUTF8.toList

/-- The format of `client.c`. -/
def clientFormat : List Item := items (text "Order from client %d at location (%d, %d)")

/-- The format of `server.c`. -/
def serverFormat : List Item := items (text "Order from client %*d at location (%d, %d)")

/-- A value of the C type `int`. -/
def IsInt (v : Int) : Prop := -2 ^ 31 ≤ v ∧ v < 2 ^ 31

/-- The integers of an order. -/
structure Numbers where
  i : Int
  x : Int
  y : Int
  i_int : IsInt i
  x_int : IsInt x
  y_int : IsInt y

/-- What a client writes. -/
def orderText (n : Numbers) : Bytes := printf clientFormat [n.i, n.x, n.y]

/-- What one `read` delivers; nothing when the peer has closed the connection. -/
structure Message where
  bytes : Bytes
  fits : bytes.length < MAX_BUFFER

/-- `buffer`, zeroed and read into. -/
def Message.buffer (msg : Message) : Bytes :=
  msg.bytes ++ List.replicate (MAX_BUFFER - msg.bytes.length) 0

/-- What `%d` stores: a `long` that saturates, cut to 32 bits. -/
def storeInt (v : Int) : Int := (max (-2 ^ 63) (min (2 ^ 63 - 1) v)).bmod (2 ^ 32)

/-- `order.client.x` and `order.client.y` after the call of `sscanf`. -/
def coordinates (buffer : Bytes) : Int × Int :=
  match sscanf serverFormat (cstr buffer) with
  | [] => (0, 0)
  | [x] => (storeInt x, 0)
  | x :: y :: _ => (storeInt x, storeInt y)

/-- `handle_client` on what `read` delivered. -/
def receive (s : Shop) (msg : Message) : Shop :=
  let (x, y) := coordinates msg.buffer
  if s.order_count < MAX_ORDERS then handle_client s x y
  else s

/-- An order has been added to the table. -/
def Adds (s s' : Shop) : Prop := s'.order_count = s.order_count + 1

/-- The message is an order of the client. -/
def IsOrder (msg : Message) : Prop := ∃ n, msg.bytes = orderText n

/-- The messages of the client, and no others, are added as long as there is room, and with their
    coordinates. -/
structure Parses (s : Shop) (msg : Message) : Prop where
  adds : Adds s (receive s msg) ↔ IsOrder msg ∧ s.order_count < MAX_ORDERS
  stored : ∀ n, msg.bytes = orderText n → s.order_count < MAX_ORDERS →
    ((receive s msg).orders s.order_count).x = n.x ∧ ((receive s msg).orders s.order_count).y = n.y

variable {s : Shop} {msg : Message}

/-! ## §2. What a message does. -/

theorem receive_room (h : s.order_count < MAX_ORDERS) : receive s msg
    = handle_client s (coordinates msg.buffer).1 (coordinates msg.buffer).2 := if_pos h

theorem receive_full (h : MAX_ORDERS ≤ s.order_count) : receive s msg = s :=
  if_neg (Nat.not_lt.mpr h)

/-- **A message is the arrival of an order in the runs of the shop**, or is refused. -/
theorem receive_step (c : Config) (s : Shop) (msg : Message) :
    (∃ x y, ∀ t s', Signal c (receive s msg) t s' → Step c s (.order x y t) s')
      ∨ Step c s .refused (receive s msg) := by
  rcases Nat.lt_or_ge s.order_count MAX_ORDERS with hroom | hfull
  · refine .inl ⟨(coordinates msg.buffer).1, (coordinates msg.buffer).2, fun t s' hsignal => ?_⟩
    rw [receive_room hroom] at hsignal
    exact .order _ _ hroom hsignal
  · rw [receive_full hfull]
    exact .inr (.refused hfull)

/-- Whatever the message, an order is added when there is room. -/
theorem adds_iff : Adds s (receive s msg) ↔ s.order_count < MAX_ORDERS := by
  rcases Nat.lt_or_ge s.order_count MAX_ORDERS with hroom | hfull
  · rw [receive_room hroom]
    exact iff_of_true rfl hroom
  · rw [receive_full hfull]
    exact iff_of_false (Nat.ne_of_lt (Nat.lt_succ_self _)) (Nat.not_lt.mpr hfull)

/-! ## §3. The order of a client. -/

theorem storeInt_of_int {v : Int} (h : IsInt v) : storeInt v = v := by
  obtain ⟨hlo, hhi⟩ := h
  unfold storeInt
  rw [min_eq_right (by omega), max_eq_right (by omega)]
  exact Int.bmod_eq_of_le (by omega) (by omega)

/-- The server reads the format that the client writes. -/
theorem orderText_server (n : Numbers) : orderText n = printf serverFormat [n.i, n.x, n.y] := by
  have hplain : clientFormat.map Item.plain = serverFormat.map Item.plain := by decide +kernel
  rw [orderText, ← printf_plain clientFormat, hplain, printf_plain]

/-- An order is a string without NUL. -/
theorem orderText_no_nul (n : Numbers) : 0 ∉ orderText n := by
  intro hmem
  rcases mem_printf hmem with h | h | h | h
  · exact absurd h (by decide +kernel)
  · exact absurd h (by decide +kernel)
  · exact absurd h (by decide)
  · exact absurd h (by decide)

/-- The buffer holds the bytes that were read, up to the first NUL. -/
theorem cstr_buffer (msg : Message) : cstr msg.buffer = cstr msg.bytes := by
  have hroom := msg.fits
  obtain ⟨k, hk⟩ : ∃ k, MAX_BUFFER - msg.bytes.length = k + 1 :=
    ⟨MAX_BUFFER - msg.bytes.length - 1, by omega⟩
  rw [Message.buffer, hk, List.replicate_succ, cstr_append_nul]

/-- **The coordinates of an order come through.** -/
theorem coordinates_order {n : Numbers} (h : msg.bytes = orderText n) :
    coordinates msg.buffer = (n.x, n.y) := by
  have hflags : flags serverFormat = [false, true, true] := by decide +kernel
  have hargs : [n.i, n.x, n.y].length = arity serverFormat := by
    rw [arity, hflags]
    rfl
  have hscan := sscanf_printf (by decide +kernel : Readable serverFormat) hargs
  rw [kept, hflags] at hscan
  unfold coordinates
  rw [cstr_buffer, h, cstr_of_no_nul (orderText_no_nul n), orderText_server, hscan]
  show (storeInt n.x, storeInt n.y) = _
  rw [storeInt_of_int n.x_int, storeInt_of_int n.y_int]

/-- **Exactly the orders of the client are added**, with their coordinates, when the message is such
    an order or the table is full. -/
theorem parses_iff (s : Shop) (msg : Message) :
    Parses s msg ↔ MAX_ORDERS ≤ s.order_count ∨ IsOrder msg := by
  constructor
  · intro h
    rcases Nat.lt_or_ge s.order_count MAX_ORDERS with hroom | hfull
    · exact .inr (h.adds.mp (adds_iff.mpr hroom)).1
    · exact .inl hfull
  · intro h
    refine ⟨?_, fun n hn hroom => ?_⟩
    · rw [adds_iff]
      exact ⟨fun hroom => ⟨h.resolve_left (Nat.not_le.mpr hroom), hroom⟩, And.right⟩
    · rw [receive_room hroom, coordinates_order hn]
      have hself : (handle_client s n.x n.y).orders s.order_count = newOrder s.order_count n.x n.y :=
        Function.update_self ..
      rw [hself]
      exact ⟨rfl, rfl⟩

/-- A connection that is closed without a word leaves an order at (0, 0). -/
theorem closed_connection_orders : ¬ ∀ (s : Shop) (msg : Message), Parses s msg := by
  intro hclaim
  have hopening := hclaim (opening fun _ => newOrder 0 0 0) ⟨[], by decide⟩
  obtain ⟨⟨n, hn⟩, -⟩ := hopening.adds.mp (adds_iff.mpr (by decide))
  obtain ⟨fmt, hfmt⟩ : ∃ fmt, clientFormat = .lit 79 :: fmt :=
    ⟨clientFormat.tail, by decide +kernel⟩
  rw [orderText, hfmt] at hn
  cases hn

end SystemOS.PideShop.OrderParsing
