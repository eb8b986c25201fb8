/-
  The broker boundary and its reference venue (`broker/protocol.py`,
  `broker/adapter.py`, `broker/validation.py`, `broker/paper.py`).

  * `toBrokerOrder` is the order a venue is handed;
  * `PaperBroker` is the paper venue: a market order fills in full when it is
    submitted, any other order rests; its books are kept at average cost
    (`positionAfterFill`).
-/
import AlphaLab.Broker.Mirror
import AlphaLab.Lib.Runs

namespace AlphaLab

open Fallible

inductive BrokerRefusal where
  | quantityNotPositive (quantity : Decimal)
  | duplicateHandle (brokerOrderId : String)
  | unquoted (symbol : String)

/-- `OMSOrderProtocol`: an OMS order as the adapter reads it. -/
structure RoutableOrder where
  orderId : String
  assetId : String
  side : Side
  quantity : Decimal
  price : Decimal

def toBrokerOrder (r : RoutableOrder) (brokerOrderId : String) (orderType : OrderType)
    (timestamp : Instant) (stopPrice : Option Decimal := none) (tif : TimeInForce := .day) :
    BrokerOrder where
  brokerOrderId := brokerOrderId
  omsOrderId := r.orderId
  symbol := r.assetId
  side := r.side
  orderType := orderType
  quantity := r.quantity
  price := r.price
  filledQuantity := 0
  averageFillPrice := 0
  status := .pendingSubmit
  createdAt := timestamp
  updatedAt := timestamp
  tif := tif
  stopPrice := stopPrice.getD 0

def validateOrderSubmission (m : BrokerState) (o : BrokerOrder) : Except BrokerRefusal Unit := do
  require (0 < o.quantity) (.quantityNotPositive o.quantity)
  require (m.orders.get? o.brokerOrderId = none) (.duplicateHandle o.brokerOrderId)

/-! ## The paper venue -/

/-- What a cost model reads of a fill at the paper venue (`CostContext`). -/
structure CostContext where
  assetId : String
  side : Side
  quantity : Decimal
  referencePrice : Decimal
  currency : String
  venue : String
  timestamp : Instant

/-- `PaperBroker`: what its cost model makes of a fill, its price and the cash it
    charges, and the identifiers its fills are given. -/
structure PaperBroker where
  quote : CostContext → Option (Decimal × Decimal)
  newId : BrokerState → BrokerOrder → String

/-- `_BOOK_QUANTUM`: the decimals averages and realized P&L are kept to. -/
def bookPlaces : ℕ := 4

/-- `position_after_fill`: a venue position at average cost on either side of zero. -/
def positionAfterFill (p : BrokerPosition) (side : Side) (quantity price : Decimal) :
    BrokerPosition :=
  let signed := if side = .buy then quantity else -quantity
  let held := p.quantity
  let after := held + signed
  let adds : Bool := held = 0 ∨ (0 < held ↔ 0 < signed)
  let average :=
    if adds then
      divide (add (multiply |held| p.averagePrice) (multiply quantity price)) |after|
    else if after = 0 then 0
    else if (0 < after ↔ 0 < held) then p.averagePrice
    else price
  let closed := min |held| quantity
  let realized :=
    if adds then p.realizedPnl
    else p.realizedPnl + multiply (multiply closed (price - p.averagePrice))
      (if 0 < held then 1 else -1)
  { p with
    quantity := after
    averagePrice := quantize bookPlaces average
    realizedPnl := quantize bookPlaces realized }

/-- The venue position a fill of `o` is booked in, flat if there is none. -/
def BrokerState.positionOf (m : BrokerState) (symbol : String) : BrokerPosition :=
  (m.positions.get? symbol).getD {
    symbol := symbol
    quantity := 0
    averagePrice := 0
    marketValue := 0
    unrealizedPnl := 0
    realizedPnl := 0 }

def BrokerOrder.paperFilled (o : BrokerOrder) (quantity price : Decimal) (timestamp : Instant) :
    BrokerOrder :=
  let filled := o.filledQuantity + quantity
  let total := add (multiply o.filledQuantity o.averageFillPrice) (multiply quantity price)
  { o with
    filledQuantity := filled
    averageFillPrice := quantize bookPlaces (if 0 < filled then divide total filled else 0)
    status := if o.quantity ≤ filled then .canonical .filled else .canonical .partiallyFilled
    updatedAt := timestamp }

def PaperBroker.executionOf (b : PaperBroker) (m : BrokerState) (o : BrokerOrder)
    (quantity price commission : Decimal) (timestamp : Instant) : BrokerExecution where
  executionId := "EXEC-" ++ b.newId m o
  brokerOrderId := o.brokerOrderId
  symbol := o.symbol
  fillQuantity := quantity
  fillPrice := price
  commission := commission
  timestamp := timestamp

/-- `_simulate_fill`: the order, the cash and the position of a paper fill. -/
def PaperBroker.simulateFill (b : PaperBroker) (m : BrokerState) (o : BrokerOrder)
    (quantity referencePrice : Decimal) (timestamp : Instant) :
    Except BrokerRefusal BrokerState := do
  let context : CostContext := {
    assetId := o.symbol
    side := o.side
    quantity := quantity
    referencePrice := referencePrice
    currency := m.account.currency
    venue := m.brokerName
    timestamp := timestamp }
  let (price, commission) ← orRefuse (b.quote context) (.unquoted o.symbol)
  let notional := multiply quantity price
  let cash := if o.side = .buy then m.account.cash - notional - commission
    else m.account.cash + notional - commission
  pure { m.putOrder (o.paperFilled quantity price timestamp) with
    executions := m.executions.put (b.executionOf m o quantity price commission timestamp)
    account := { m.account with cash := cash }
    positions :=
      m.positions.put (positionAfterFill (m.positionOf o.symbol) o.side quantity price) }

def BrokerOrder.acceptedAt (o : BrokerOrder) (timestamp : Instant) : BrokerOrder :=
  { o with status := .canonical .accepted, updatedAt := timestamp }

/-- `submit_order`: a market order fills in full, every other order rests. -/
def PaperBroker.submitOrder (b : PaperBroker) (m : BrokerState) (o : BrokerOrder)
    (timestamp : Instant) : Except BrokerRefusal BrokerState := do
  validateOrderSubmission m o
  let accepted := o.acceptedAt timestamp
  let m := m.putOrder accepted
  if o.orderType = .market then b.simulateFill m accepted o.quantity o.price timestamp
  else pure m

theorem validateOrderSubmission_ok {m : BrokerState} {o : BrokerOrder} {u : Unit} :
    validateOrderSubmission m o = .ok u ↔
      0 < o.quantity ∧ m.orders.get? o.brokerOrderId = none := by
  simp only [validateOrderSubmission, bind_ok, require_ok]
  exact ⟨fun ⟨_, hq, hh⟩ => ⟨hq, hh⟩, fun ⟨hq, hh⟩ => ⟨(), hq, hh⟩⟩

/-- What an accepted submission leaves: the order resting, or filled by one
    execution of all of it. -/
theorem submitOrder_ok {b : PaperBroker} {m m' : BrokerState} {o : BrokerOrder}
    {timestamp : Instant} (h : b.submitOrder m o timestamp = .ok m') :
    0 < o.quantity ∧ m.orders.get? o.brokerOrderId = none ∧
      ((o.orderType ≠ .market ∧ m' = m.putOrder (o.acceptedAt timestamp)) ∨
        ∃ price commission, o.orderType = .market ∧
          m'.orders = (m.orders.put (o.acceptedAt timestamp)).put
            ((o.acceptedAt timestamp).paperFilled o.quantity price timestamp) ∧
          m'.executions = m.executions.put (b.executionOf (m.putOrder (o.acceptedAt timestamp))
            (o.acceptedAt timestamp) o.quantity price commission timestamp)) := by
  simp only [PaperBroker.submitOrder, bind_ok, validateOrderSubmission_ok] at h
  obtain ⟨_, ⟨hq, hnew⟩, h⟩ := h
  refine ⟨hq, hnew, ?_⟩
  split_ifs at h with hmarket
  · right
    simp only [PaperBroker.simulateFill, bind_ok, orRefuse_ok, pure_ok] at h
    obtain ⟨⟨price, commission⟩, _, rfl⟩ := h
    exact ⟨price, commission, hmarket, rfl, rfl⟩
  · exact Or.inl ⟨hmarket, (pure_ok.mp h).symm⟩

end AlphaLab
