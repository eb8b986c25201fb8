/-
  The OMS as it is kept (`oms/order.py`, `oms/book.py`, `oms/engine.py`, `oms/state.py`)
  and its snapshot (`oms/snapshot.py`).

  * `OmsOrder` is an order with the remaining quantity it stores; its moves compute in the
    accounting context, where those of `Oms/Orders` are exact;
  * `OmsState` holds the book, the active and completed sets, the two logs and the working
    index; `store` writes all of them for one order;
  * `OmsState.step` is one call of the engine, `capture` and `restore` the snapshot.

  An event's identifier, which the engine draws from the ambient source, comes with the
  call.
-/
import AlphaLab.Lib.OrderedSet
import AlphaLab.Oms.Orders

namespace AlphaLab

open Fallible

/-! ## Orders -/

/-- An order with its `remaining_quantity`. -/
structure OmsOrder extends Order where
  remaining : Decimal
deriving DecidableEq

inductive OmsError where
  | refused (refusal : OmsRefusal)
  /-- `DivisionByZero`: the average of fills that sum to nothing -/
  | undividedAverage (orderId : String)

namespace OmsOrder

variable (o : OmsOrder)

def next (event : OrderEventKind) : Except OmsError OrderStatus :=
  (o.toOrder.next event).mapError .refused

/-- `accept`, `reject`, `cancel` and `expire`. -/
def moved (event : StatusEventKind) (timestamp : Instant) : Except OmsError OmsOrder := do
  let order ← (o.toOrder.moved event timestamp).mapError .refused
  pure { o with toOrder := order }

/-- `_filled_by`: the filled quantity and the average price after a fill. -/
def filledAfter (quantity price : Decimal) : Except OmsError (Decimal × Decimal) := do
  require (0 < quantity) (.refused (.notAFill quantity))
  let filled := add o.filledQuantity quantity
  require (filled ≠ 0) (.undividedAverage o.orderId)
  pure (filled, divide (add (multiply o.filledQuantity o.averageFillPrice)
    (multiply quantity price)) filled)

def filledBy (status : OrderStatus) (filled average : Decimal) (timestamp : Instant) : OmsOrder :=
  { o with
    status := status
    filledQuantity := filled
    remaining := subtract o.quantity filled
    averageFillPrice := average
    updatedAt := timestamp }

def partialFill (quantity price : Decimal) (timestamp : Instant) : Except OmsError OmsOrder := do
  let status ← o.next .partiallyFilled
  let (filled, average) ← o.filledAfter quantity price
  require (filled < o.quantity) (.refused (.leavesNothing o.orderId filled o.quantity))
  pure (o.filledBy status filled average timestamp)

def fill (quantity price : Decimal) (timestamp : Instant) : Except OmsError OmsOrder := do
  let status ← o.next .filled
  let (filled, average) ← o.filledAfter quantity price
  require (filled = o.quantity) (.refused (.notComplete o.orderId filled o.quantity))
  pure (o.filledBy status filled average timestamp)

def replace (quantity : Decimal) (timestamp : Instant) (limit : Option Decimal) :
    Except OmsError OmsOrder := do
  let status ← o.next .replaced
  require (o.filledQuantity < quantity)
    (.refused (.replacedByNothing o.orderId quantity o.filledQuantity))
  pure { o with
    status := status
    quantity := quantity
    remaining := subtract quantity o.filledQuantity
    limitPrice := limit.orElse fun _ => o.limitPrice
    updatedAt := timestamp }

/-- `validate_order` -/
def isValid (timestamp : Instant) : Bool :=
  0 < o.quantity && !(o.orderType = .limit && o.limitPrice.isNone) &&
    !(o.orderType = .market && o.limitPrice.isSome) &&
    !((o.orderType = .stop || o.orderType = .stopLimit) && o.stopPrice.isNone) &&
    0 ≤ o.remaining && o.filledQuantity ≤ o.quantity && o.createdAt ≤ o.updatedAt &&
    timestamp ≤ o.updatedAt

end OmsOrder

structure OmsBook where
  orders : Register fun o : OmsOrder => o.orderId
  byAsset : Dict String (OrderedSet String)
  byStrategy : Dict String (OrderedSet String)

namespace OmsBook

def empty : OmsBook := ⟨.empty, .empty, .empty⟩

variable (book : OmsBook)

/-- `add`: an order without a strategy is not in the strategies' index. -/
def add (order : OmsOrder) : OmsBook where
  orders := book.orders.put order
  byAsset := book.byAsset.enter order.assetId order.orderId
  byStrategy := if order.strategyId = "" then book.byStrategy
    else book.byStrategy.enter order.strategyId order.orderId

/-- `replace`: the indexes stay. -/
def replace (order : OmsOrder) : OmsBook := { book with orders := book.orders.put order }

def find (orderId : String) : Except OmsError OmsOrder :=
  orRefuse (book.orders.get? orderId) (.refused (.unknownOrder orderId))

end OmsBook

/-- What an `OMSEvent` says beside its order and its time. -/
inductive OmsEventKind where
  | submitted (order : OmsOrder)
  | accepted
  | rejected (reason : String)
  | cancelled
  | expired
  | replaced (newQuantity : Decimal) (newLimitPrice : Option Decimal)
  | partiallyFilled (fillQuantity fillPrice : Decimal)
  | filled (fillQuantity fillPrice : Decimal)

structure OmsEvent where
  eventId : String
  timestamp : Instant
  orderId : String
  kind : OmsEventKind

/-! ## The state -/

structure OmsState where
  orders : OmsBook
  activeOrders : OrderedSet String
  completedOrders : OrderedSet String
  history : List OmsEvent
  events : List OmsEvent
  workingByAsset : Dict String (OrderedSet String)

namespace OmsState

def empty : OmsState := ⟨.empty, .empty, .empty, [], [], .empty⟩

variable (s : OmsState)

def workingOrdersFor (assetId : String) : List String := s.workingByAsset.membersAt assetId

def appendEvent (event : OmsEvent) : OmsState :=
  { s with history := s.history ++ [event], events := s.events ++ [event] }

def indexed (order : OmsOrder) : Dict String (OrderedSet String) :=
  let held := s.workingByAsset.get? order.assetId
  let working :=
    if order.isOpen then
      some (held.elim (OrderedSet.singleton order.orderId) (·.add order.orderId))
    else held.map (·.discard order.orderId)
  if working = held then s.workingByAsset
  else
    match working with
    | some members =>
      if members.members = [] then s.workingByAsset.delete order.assetId
      else s.workingByAsset.set order.assetId members
    | none => s.workingByAsset.delete order.assetId

/-- `_store`: the book, the two sets, the logs and the working index, for one order. -/
def store (order : OmsOrder) (event : Option OmsEvent) : OmsState where
  orders := if (s.orders.orders.get? order.orderId).isSome then s.orders.replace order
    else s.orders.add order
  activeOrders := if order.isOpen then s.activeOrders.add order.orderId
    else s.activeOrders.discard order.orderId
  completedOrders := if order.isOpen then s.completedOrders.discard order.orderId
    else s.completedOrders.add order.orderId
  history := s.history ++ event.toList
  events := s.events ++ event.toList
  workingByAsset := s.indexed order

def move (orderId : String) (move : OmsOrder → Except OmsError OmsOrder) (event : OmsEvent) :
    Except OmsError OmsState := do
  let order ← s.orders.find orderId
  let moved ← move order
  pure (s.store moved (some event))

def submit (order : OmsOrder) (timestamp : Instant) (eventId : String) :
    Except OmsError OmsState := do
  require (s.orders.orders.get? order.orderId = none) (.refused (.duplicateOrder order.orderId))
  require (order.isValid timestamp) (.refused (.invalidOrder order.orderId))
  pure ((s.store order none).appendEvent ⟨eventId, timestamp, order.orderId, .submitted order⟩)

/-- `trigger`: no event is logged, and an order already triggered is left. -/
def trigger (orderId : String) (timestamp : Instant) : Except OmsError OmsState := do
  let order ← s.orders.find orderId
  pure (if order.triggeredAt.isSome then s
    else s.store { order with triggeredAt := some timestamp } none)

end OmsState

inductive OmsCall where
  | submit (order : OmsOrder) (timestamp : Instant) (eventId : String)
  | accept (orderId : String) (timestamp : Instant) (eventId : String)
  | reject (orderId reason : String) (timestamp : Instant) (eventId : String)
  | cancel (orderId : String) (timestamp : Instant) (eventId : String)
  | expire (orderId : String) (timestamp : Instant) (eventId : String)
  | partialFill (orderId : String) (quantity price : Decimal) (timestamp : Instant)
      (eventId : String)
  | fill (orderId : String) (quantity price : Decimal) (timestamp : Instant) (eventId : String)
  | replace (orderId : String) (quantity : Decimal) (timestamp : Instant)
      (limit : Option Decimal) (eventId : String)
  | trigger (orderId : String) (timestamp : Instant)

/-- One call of `OMSEngine`. -/
def OmsState.step (s : OmsState) : OmsCall → Except OmsError OmsState
  | .submit order timestamp eventId => s.submit order timestamp eventId
  | .accept orderId timestamp eventId =>
    s.move orderId (·.moved .accepted timestamp) ⟨eventId, timestamp, orderId, .accepted⟩
  | .reject orderId reason timestamp eventId =>
    s.move orderId (·.moved .rejected timestamp) ⟨eventId, timestamp, orderId, .rejected reason⟩
  | .cancel orderId timestamp eventId =>
    s.move orderId (·.moved .cancelled timestamp) ⟨eventId, timestamp, orderId, .cancelled⟩
  | .expire orderId timestamp eventId =>
    s.move orderId (·.moved .expired timestamp) ⟨eventId, timestamp, orderId, .expired⟩
  | .partialFill orderId quantity price timestamp eventId =>
    s.move orderId (·.partialFill quantity price timestamp)
      ⟨eventId, timestamp, orderId, .partiallyFilled quantity price⟩
  | .fill orderId quantity price timestamp eventId =>
    s.move orderId (·.fill quantity price timestamp)
      ⟨eventId, timestamp, orderId, .filled quantity price⟩
  | .replace orderId quantity timestamp limit eventId =>
    s.move orderId (·.replace quantity timestamp limit)
      ⟨eventId, timestamp, orderId, .replaced quantity limit⟩
  | .trigger orderId timestamp => s.trigger orderId timestamp

structure OmsSnapshot where
  orders : List OmsOrder
  activeOrders : List String
  completedOrders : List String
  history : List OmsEvent
  events : List OmsEvent

def OmsState.capture (s : OmsState) : OmsSnapshot where
  orders := s.orders.orders.values
  activeOrders := s.activeOrders.members
  completedOrders := s.completedOrders.members
  history := s.history
  events := s.events

/-- `restore`: the book's indexes from the orders, the working index from the active ones. -/
def OmsSnapshot.restore (n : OmsSnapshot) : Except OmsError OmsState := do
  let book := n.orders.foldl OmsBook.add .empty
  let working ← n.activeOrders.foldlM
    (fun (working : Dict String (OrderedSet String)) orderId => do
      let order ← book.find orderId
      pure (working.enter order.assetId orderId)) .empty
  pure {
    orders := book
    activeOrders := OrderedSet.ofList n.activeOrders
    completedOrders := OrderedSet.ofList n.completedOrders
    history := n.history
    events := n.events
    workingByAsset := working }

end AlphaLab
