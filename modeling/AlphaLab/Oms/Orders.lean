/-
  Orders and the order book (`oms/order.py`, `oms/book.py`, `oms/engine.py`,
  `oms/validation.py`).

  * `Order` is an order and its lifecycle; `Order.fill`, `Order.cancel`, … ask the
    table of `Core/Lifecycle` whether a move is legal and add the arithmetic it
    does not know;
  * `OrderBook` holds every order under its own identifier, `OrderBook.update`
    moves one of them.
-/
import AlphaLab.Core.Lifecycle
import AlphaLab.Core.Orders
import AlphaLab.Lib.Register
import AlphaLab.Lib.Runs

namespace AlphaLab

open Fallible

/-! ## Orders -/

inductive OmsRefusal where
  | unknownOrder (orderId : String)
  | duplicateOrder (orderId : String)
  | invalidOrder (orderId : String)
  | invalidTransition (orderId : String) (status : OrderStatus) (event : OrderEventKind)
  | notAFill (quantity : Decimal)
  | leavesNothing (orderId : String) (filled quantity : Decimal)
  | notComplete (orderId : String) (filled quantity : Decimal)
  | replacedByNothing (orderId : String) (quantity filled : Decimal)

/-- `Order`, less its metadata. -/
structure Order where
  orderId : String
  strategyId : String
  assetId : String
  side : Side
  orderType : OrderType
  status : OrderStatus
  quantity : Decimal
  filledQuantity : Decimal
  limitPrice : Option Decimal
  stopPrice : Option Decimal
  averageFillPrice : Decimal
  createdAt : Instant
  updatedAt : Instant
  timeInForce : TimeInForce := .day
  expireAt : Option Instant := none
  triggeredAt : Option Instant := none
deriving DecidableEq

namespace Order

variable (o : Order)

def remainingQuantity : Decimal := o.quantity - o.filledQuantity

def isOpen : Bool := ¬ o.status.isTerminal

/-- `OrderTerms.is_immediate` of the order's terms. -/
def isImmediate : Bool := o.timeInForce = .ioc || o.timeInForce = .fok

/-- `OrderTerms.is_auction` of the order's terms. -/
def isAuction : Bool := o.timeInForce = .opg || o.timeInForce = .cls

def next (event : OrderEventKind) : Except OmsRefusal OrderStatus :=
  orRefuse (nextOrderStatus o.status event o.filledQuantity)
    (.invalidTransition o.orderId o.status event)

/-- `accept`, `reject`, `cancel` and `expire`: a status event, and when it came. -/
def moved (event : StatusEventKind) (timestamp : Instant) : Except OmsRefusal Order := do
  let status ← o.next (.status event)
  pure { o with status := status, updatedAt := timestamp }

def accept (timestamp : Instant) : Except OmsRefusal Order := o.moved .accepted timestamp

def reject (timestamp : Instant) : Except OmsRefusal Order := o.moved .rejected timestamp

def cancel (timestamp : Instant) : Except OmsRefusal Order := o.moved .cancelled timestamp

def expire (timestamp : Instant) : Except OmsRefusal Order := o.moved .expired timestamp

/-- `_filled_by`, the average: volume weighted, in the accounting context. -/
def averageAfter (quantity price : Decimal) : Decimal :=
  divide (multiply o.filledQuantity o.averageFillPrice + multiply quantity price)
    (o.filledQuantity + quantity)

def filledBy (status : OrderStatus) (quantity price : Decimal) (timestamp : Instant) : Order :=
  { o with
    status := status
    filledQuantity := o.filledQuantity + quantity
    averageFillPrice := o.averageAfter quantity price
    updatedAt := timestamp }

/-- `partial_fill`: a fill that leaves quantity working. -/
def partialFill (quantity price : Decimal) (timestamp : Instant) : Except OmsRefusal Order := do
  let status ← o.next .partiallyFilled
  require (0 < quantity) (.notAFill quantity)
  require (o.filledQuantity + quantity < o.quantity)
    (.leavesNothing o.orderId (o.filledQuantity + quantity) o.quantity)
  pure (o.filledBy status quantity price timestamp)

/-- `fill`: a fill that completes the order exactly. -/
def fill (quantity price : Decimal) (timestamp : Instant) : Except OmsRefusal Order := do
  let status ← o.next .filled
  require (0 < quantity) (.notAFill quantity)
  require (o.filledQuantity + quantity = o.quantity)
    (.notComplete o.orderId (o.filledQuantity + quantity) o.quantity)
  pure (o.filledBy status quantity price timestamp)

def replace (quantity : Decimal) (timestamp : Instant) (limit : Option Decimal) :
    Except OmsRefusal Order := do
  let status ← o.next .replaced
  require (o.filledQuantity < quantity) (.replacedByNothing o.orderId quantity o.filledQuantity)
  pure { o with
    status := status
    quantity := quantity
    limitPrice := limit.orElse fun _ => o.limitPrice
    updatedAt := timestamp }

/-- `validate_order` -/
def isValid (timestamp : Instant) : Bool :=
  0 < o.quantity && !(o.orderType = .limit && o.limitPrice.isNone) &&
    !(o.orderType = .market && o.limitPrice.isSome) &&
    !((o.orderType = .stop || o.orderType = .stopLimit) && o.stopPrice.isNone) &&
    0 ≤ o.remainingQuantity && o.filledQuantity ≤ o.quantity && o.createdAt ≤ o.updatedAt &&
    timestamp ≤ o.updatedAt

end Order

/-- `_oms_order`: the order a request becomes. -/
def OrderRequest.toOrder (r : OrderRequest) (expireAt : Option Instant) : Order where
  orderId := r.orderId
  strategyId := r.strategyId
  assetId := r.assetId
  side := r.side
  orderType := r.terms.orderType
  status := .new
  quantity := r.quantity
  filledQuantity := 0
  limitPrice := r.terms.limitPrice
  stopPrice := r.terms.stopPrice
  averageFillPrice := 0
  createdAt := r.timestamp
  updatedAt := r.timestamp
  timeInForce := r.terms.timeInForce
  expireAt := expireAt

abbrev OrderBook := Register Order.orderId

namespace OrderBook

variable (book : OrderBook)

def find (orderId : String) : Except OmsRefusal Order :=
  orRefuse (book.get? orderId) (.unknownOrder orderId)

def update (orderId : String) (move : Order → Except OmsRefusal Order) :
    Except OmsRefusal OrderBook := do
  let order ← book.find orderId
  let moved ← move order
  pure (book.put moved)

def submit (order : Order) (timestamp : Instant) : Except OmsRefusal OrderBook := do
  require (book.get? order.orderId = none) (.duplicateOrder order.orderId)
  require (order.isValid timestamp) (.invalidOrder order.orderId)
  pure (book.put order)

/-- `trigger`: a stop order's stop was reached; it is reached once. -/
def trigger (orderId : String) (timestamp : Instant) : Except OmsRefusal OrderBook := do
  let order ← book.find orderId
  pure (if order.triggeredAt.isSome then book
    else book.put { order with triggeredAt := some timestamp })

def workingOrdersFor (assetId : String) : List String :=
  (book.values.filter fun o => o.isOpen && o.assetId = assetId).map (·.orderId)

end OrderBook

/-! ## Facts of moves -/

structure Order.SameTerms (o o' : Order) : Prop where
  orderId : o'.orderId = o.orderId
  assetId : o'.assetId = o.assetId
  side : o'.side = o.side
  orderType : o'.orderType = o.orderType
  timeInForce : o'.timeInForce = o.timeInForce
  createdAt : o'.createdAt = o.createdAt
  expireAt : o'.expireAt = o.expireAt

section
variable {o o' : Order}

theorem next_ok {event : OrderEventKind} {status : OrderStatus} :
    o.next event = .ok status ↔
      nextOrderStatus o.status event o.filledQuantity = some status :=
  orRefuse_ok

variable {timestamp : Instant}

theorem moved_ok {event : StatusEventKind} :
    o.moved event timestamp = .ok o' ↔
      ∃ status, nextOrderStatus o.status (.status event) o.filledQuantity = some status ∧
        o' = { o with status := status, updatedAt := timestamp } := by
  simp only [Order.moved, bind_ok, next_ok, pure_ok]
  exact exists_congr fun status => and_congr_right fun _ => eq_comm

theorem partialFill_ok {quantity price : Decimal} :
    o.partialFill quantity price timestamp = .ok o' ↔
      ∃ status, nextOrderStatus o.status .partiallyFilled o.filledQuantity = some status ∧
        0 < quantity ∧ o.filledQuantity + quantity < o.quantity ∧
        o' = o.filledBy status quantity price timestamp := by
  simp only [Order.partialFill, bind_ok, next_ok, require_ok, pure_ok, exists_const]
  exact exists_congr fun status => and_congr_right fun _ => and_congr_right fun _ =>
    and_congr_right fun _ => eq_comm

theorem fill_ok {quantity price : Decimal} :
    o.fill quantity price timestamp = .ok o' ↔
      ∃ status, nextOrderStatus o.status .filled o.filledQuantity = some status ∧
        0 < quantity ∧ o.filledQuantity + quantity = o.quantity ∧
        o' = o.filledBy status quantity price timestamp := by
  simp only [Order.fill, bind_ok, next_ok, require_ok, pure_ok, exists_const]
  exact exists_congr fun status => and_congr_right fun _ => and_congr_right fun _ =>
    and_congr_right fun _ => eq_comm

variable {quantity : Decimal}

theorem replace_ok {limit : Option Decimal} :
    o.replace quantity timestamp limit = .ok o' ↔
      ∃ status, nextOrderStatus o.status .replaced o.filledQuantity = some status ∧
        o.filledQuantity < quantity ∧ o' = { o with
          status := status
          quantity := quantity
          limitPrice := limit.orElse fun _ => o.limitPrice
          updatedAt := timestamp } := by
  simp only [Order.replace, bind_ok, next_ok, require_ok, pure_ok, exists_const]
  exact exists_congr fun status => and_congr_right fun _ => and_congr_right fun _ => eq_comm

theorem isOpen_of_next {event : OrderEventKind} {status : OrderStatus}
    (h : nextOrderStatus o.status event o.filledQuantity = some status) : o.isOpen = true := by
  by_contra hclosed
  have hterminal : o.status.isTerminal = true := by simpa [Order.isOpen] using hclosed
  rw [nextOrderStatus_terminal hterminal] at h
  cases h

theorem replaced_isOpen {limit : Option Decimal} (h : o.replace quantity timestamp limit = .ok o') :
    o'.isOpen = true := by
  obtain ⟨status, hnext, -, rfl⟩ := replace_ok.mp h
  have hrow : ∀ s t, orderTransitions s .replaced = some t → t.isTerminal = false := by decide
  rcases nextOrderStatus_eq_some hnext with ht | ⟨-, hevent, -⟩
  · simpa [Order.isOpen] using hrow _ _ ht
  · cases hevent

theorem filledBy_sameTerms (status : OrderStatus) (quantity price : Decimal)
    (timestamp : Instant) : o.SameTerms (o.filledBy status quantity price timestamp) :=
  ⟨rfl, rfl, rfl, rfl, rfl, rfl, rfl⟩

/-- **One order moved**: found, moved, and put back under its identifier. -/
theorem update_ok {book book' : OrderBook} {orderId : String}
    {move : Order → Except OmsRefusal Order} :
    book.update orderId move = .ok book' ↔
      ∃ o o', book.get? orderId = some o ∧ move o = .ok o' ∧ book' = book.put o' := by
  simp only [OrderBook.update, OrderBook.find, bind_ok, orRefuse_ok, pure_ok]
  constructor
  · rintro ⟨o, ho, o', ho', rfl⟩
    exact ⟨o, o', ho, ho', rfl⟩
  · rintro ⟨o, o', ho, ho', rfl⟩
    exact ⟨o, ho, o', ho', rfl⟩

theorem submit_ok {book book' : OrderBook} {order : Order} :
    book.submit order timestamp = .ok book' ↔
      book.get? order.orderId = none ∧ order.isValid timestamp = true ∧
        book' = book.put order := by
  simp only [OrderBook.submit, bind_ok, require_ok, pure_ok, exists_const]
  exact and_congr_right fun _ => and_congr_right fun _ => eq_comm

theorem mem_workingOrdersFor {book : OrderBook} {assetId orderId : String} :
    orderId ∈ book.workingOrdersFor assetId ↔
      ∃ o, book.get? orderId = some o ∧ o.isOpen = true ∧ o.assetId = assetId := by
  simp only [OrderBook.workingOrdersFor, List.mem_map, List.mem_filter, Bool.and_eq_true,
    decide_eq_true_eq]
  constructor
  · rintro ⟨o, ⟨hmem, hopen, hasset⟩, rfl⟩
    exact ⟨o, Register.mem_values.mp hmem, hopen, hasset⟩
  · rintro ⟨o, ho, hopen, hasset⟩
    obtain rfl := Register.key_of_get? ho
    exact ⟨o, ⟨Register.mem_values.mpr ho, hopen, hasset⟩, rfl⟩

theorem workingOrdersFor_nodup (book : OrderBook) (assetId : String) :
    (book.workingOrdersFor assetId).Nodup :=
  book.nodup_map_values.sublist (List.filter_sublist.map _)

end

end AlphaLab
