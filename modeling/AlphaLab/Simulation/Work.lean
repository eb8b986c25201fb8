/-
  A simulated order's turn at a market event (`runtime/execution_pipeline.py`,
  `execution/simulator.py`, `execution/engine.py`).

  * `SimState` is the pipeline with what only a simulated run keeps: what the
    simulator was asked to execute, the auctions held, and the queue;
  * `workOrder` is one order's turn: it expires, waits, or is filled by
    `simulateFill` (its one attempt) or `workResting` (at a price of its own);
  * every fill comes through `executeAndBook`, which asks the simulator for the
    report and books it.
-/
import AlphaLab.Execution.Costs
import AlphaLab.Runtime.PipelineCalls
import AlphaLab.Simulation.Policies
import AlphaLab.Simulation.Queue

namespace AlphaLab

open Fallible

/-! ## What venues declare -/

inductive AuctionTieBreak where
  | highest | lowest | nearestReference

inductive AuctionPriority where
  | publishedFirst | proRata

/-- `AuctionUncross`: how a venue computes its reopening auction from its book. -/
structure AuctionUncross where
  tieBreak : AuctionTieBreak
  priority : AuctionPriority := .publishedFirst
  extension : Option Instant := none

/-- `TradingHalt`, one that reopens by auction. -/
structure TradingHalt where
  start : Instant
  «end» : Option Instant
  uncross : Option AuctionUncross := none

/-- `AuctionInterest`: what a venue published of its auction book. -/
structure AuctionInterest where
  bids : List (Decimal × Decimal) := []
  offers : List (Decimal × Decimal) := []
  marketBuy : Decimal := 0
  marketSell : Decimal := 0

/-- `TradingControls`, as they answer at one event. -/
structure TradingControls where
  halted : String → Bool := fun _ => false
  /-- `unbanded`: a band rule is in force without a current reference. -/
  unbanded : String → Bool := fun _ => false
  /-- `band(…).admits`; any price where no band is in force. -/
  admits : String → Decimal → Bool := fun _ _ => true
  /-- `auctions`: some halt reopens by auction. -/
  auctions : Bool := false
  reopenedByAuction : String → Option TradingHalt := fun _ => none
  auctionBook : String → Instant → Option AuctionInterest := fun _ _ => none
  reference : String → Option Decimal := fun _ => none

/-- `AuctionReopening`: an instrument's last reopening auction, as the run held it. -/
structure AuctionReopening where
  haltEnd : Instant
  «at» : Instant
  price : Option Decimal := none
  matched : Option Decimal := none
  imbalance : Option Decimal := none
  extendedTo : Option Instant := none

/-! ## The run -/

structure SimulationConfig where
  pipeline : PipelineConfig
  wholeUnits : Bool := false
  nextEvent : Bool := false
  currencyOf : String → String
  latency : String → Instant → Instant := fun _ _ => 0
  /-- A taker's cost model, or a resting fill's; `none` where it refuses. -/
  quoted : (passive : Bool) → EventCostContext → Option PricedFill
  /-- `_day_order_close`; `none` where no session end is declared. -/
  dayClose : String → Instant → Option Instant := fun _ _ => none
  executionId : ℕ → String

structure EventContext where
  event : MarketEvent
  policy : FillPolicy
  rates : FxRates := noRates
  controls : Option TradingControls := none

/-- An `ExecutionSubmitted` of the execution log, and what came of it. -/
structure ExecutionAttempt where
  timestamp : Instant
  orderId : String
  quantity : Decimal
  price : Decimal
  passive : Bool
  report : Option ExecutionReport

inductive SimulationRefusal where
  | pipeline (refusal : PipelineRefusal)
  /-- `KeyError`: no market price is known. -/
  | unpriced (assetId : String)
  | notPriced (orderId : String)
  | notExecutable (orderId : String)
  /-- `RuntimeValidationError`: a child its parent cannot be worked by. -/
  | notTheParents (orderId : String)
  | notSimulated

structure SimState where
  pipeline : PipelineState
  pending : List OrderRequest := []
  attempts : List ExecutionAttempt := []
  reopened : Dict String AuctionReopening := Dict.empty
  queue : Option QueueBook := none

namespace SimState

variable (s : SimState)

def onPipeline (move : PipelineState → Except PipelineRefusal PipelineState) :
    Except SimulationRefusal SimState := do
  let pipeline ← (move s.pipeline).mapError .pipeline
  pure { s with pipeline := pipeline }

/-- `_venue_blocks`: whether the venue's controls stop a trade at a price. -/
def venueBlocks (x : EventContext) (assetId : String) (price : Decimal) : Bool :=
  x.controls.any fun controls =>
    controls.halted assetId ||
      ((s.reopened.get? assetId).bind (·.extendedTo)).any (x.event.timestamp < ·) ||
      controls.unbanded assetId || !controls.admits assetId price

def priceOf (order : Order) : Except SimulationRefusal Decimal :=
  orRefuse (s.pipeline.marketPrices.get? order.assetId) (.unpriced order.assetId)

end SimState

/-! ## Executions -/

namespace SimulationConfig

variable (c : SimulationConfig)

/-- `ExecutionSimulator.context` -/
def costContext (event : MarketEvent) (order : Order) (quantity price : Decimal) :
    EventCostContext where
  assetId := order.assetId
  side := order.side
  quantity := quantity
  referencePrice := price
  currency := c.currencyOf order.assetId
  timestamp := event.timestamp + c.latency order.orderId event.timestamp
  quote := event.availableQuote
  availableLiquidity := event.availableQuantity order.side

def simulateFill (event : MarketEvent) (order : Order) (decision : FillDecision) (price : Decimal)
    (passive : Bool) (number : ℕ) : Except SimulationRefusal ExecutionReport := do
  let quantity := decision.fills order
  let context := c.costContext event order quantity price
  let priced ← orRefuse (c.quoted passive context) (.notPriced order.orderId)
  require (decision.status.isFill → 0 < quantity ∧ 0 ≤ context.timestamp)
    (.notExecutable order.orderId)
  pure {
    executionId := c.executionId number
    orderId := order.orderId
    assetId := order.assetId
    timestamp := context.timestamp
    fillPrice := priced.price
    fillQuantity := quantity
    commission := priced.cashCharged
    currency := context.currency
    status := decision.status }

end SimulationConfig

/-- `_close_unfilled_order`: how an order the venue never filled ends. -/
def FillStatus.ending : FillStatus → OrderEnding
  | expired => .expired
  | noFill => .cancelled
  | rejected | fullFill | partialFill => .rejected

namespace SimState

variable (s : SimState)

/-- `_taker_price`: what taking the market would cost per unit. -/
def takerPrice (c : SimulationConfig) (x : EventContext) (order : Order) (base : Decimal) :
    Except SimulationRefusal Decimal := do
  let _ ← s.priceOf order
  let priced ← orRefuse
    (c.quoted false (c.costContext x.event order order.remainingQuantity base))
    (.notPriced order.orderId)
  pure priced.price

def attempted (attempt : ExecutionAttempt) : SimState :=
  { s with
    pipeline := { s.pipeline with
      executions := s.pipeline.executions ++ attempt.report.toList }
    attempts := s.attempts ++ [attempt] }

def executeOrder (c : SimulationConfig) (x : EventContext) (order : Order)
    (decision : FillDecision) (price : Decimal) (passive : Bool) :
    Except SimulationRefusal (SimState × Option ExecutionReport) := do
  let _ ← s.priceOf order
  let report ← c.simulateFill x.event order decision price passive s.attempts.length
  let traded := if decision.status.isFill then some report else none
  pure (s.attempted {
    timestamp := x.event.timestamp
    orderId := order.orderId
    quantity := decision.fills order
    price := price
    passive := passive
    report := traded }, traded)

/-- An order executed as decided, and its report booked; without a report it is closed. -/
def executeAndBook (c : SimulationConfig) (x : EventContext) (order : Order)
    (decision : FillDecision) (price : Decimal) (passive : Bool) :
    Except SimulationRefusal SimState := do
  let executed ← s.executeOrder c x order decision price passive
  match executed.2 with
  | none =>
    executed.1.onPipeline (·.ended order.orderId decision.status.ending x.event.timestamp)
  | some report => executed.1.onPipeline (·.applyReport c.pipeline x.rates order report)

/-! ## Turns -/

def endUnfilled (order : Order) (timestamp : Instant) : Except SimulationRefusal SimState :=
  s.onPipeline (·.endUnfilled order.orderId timestamp)

def expire (order : Order) (timestamp : Instant) : Except SimulationRefusal SimState :=
  s.onPipeline (·.expire order.orderId timestamp)

/-- What becomes of an order that does not trade now: it ends if it was to trade now or
    never, and rests otherwise. -/
def restOrEnd (order : Order) (timestamp : Instant) (oneShot : Bool) :
    Except SimulationRefusal SimState :=
  if oneShot then s.endUnfilled order timestamp else pure s

def simulateFill (c : SimulationConfig) (x : EventContext) (order : Order) (base : Decimal) :
    Except SimulationRefusal SimState := do
  if s.venueBlocks x order.assetId base then pure s
  else
    let decision := decideFill x.policy order x.event base c.wholeUnits
    if kills order decision then s.endUnfilled order x.event.timestamp
    else do
      let booked ← s.executeAndBook c x order decision base false
      booked.onPipeline (·.withdrawPartialRemainder order.orderId x.event.timestamp)

def workResting (c : SimulationConfig) (x : EventContext) (policy : FillPolicy) (order : Order)
    (price : Decimal) (passive oneShot : Bool) (cap : Option Decimal := none) :
    Except SimulationRefusal SimState := do
  if s.venueBlocks x order.assetId price then s.restOrEnd order x.event.timestamp oneShot
  else
    let decided := decideFill policy order x.event price c.wholeUnits
    let decision := cap.elim decided fun cap => withinQueue decided order cap c.wholeUnits
    if kills order decision then s.endUnfilled order x.event.timestamp
    else if decision.status = .noFill then s.restOrEnd order x.event.timestamp oneShot
    else do
      let booked ← s.executeAndBook c x order decision price passive
      if oneShot then
        booked.onPipeline (·.withdrawPartialRemainder order.orderId x.event.timestamp)
      else pure booked

/-- An auction order's turn: it waits for its asset's next daily bar, and trades at its
    open or its close. -/
def workAuction (c : SimulationConfig) (x : EventContext) (order : Order) (arriving : Bool) :
    Except SimulationRefusal SimState :=
  match if arriving then none else x.event.sessionBar order.assetId with
  | none => pure s
  | some bar =>
    let price := if order.timeInForce = .opg then bar.open else bar.close
    if order.orderType = .limit ∧ ¬ order.withinLimit price then s.expire order x.event.timestamp
    else s.workResting c x x.policy order price true true

/-- A limit order meeting the market: it takes it if that is within its limit. -/
def workArriving (c : SimulationConfig) (x : EventContext) (order : Order) (base : Decimal) :
    Except SimulationRefusal SimState := do
  let taken ← s.takerPrice c x order base
  if order.withinLimit taken then s.workResting c x x.policy order base false order.isImmediate
  else s.restOrEnd order x.event.timestamp order.isImmediate

/-- A limit order that rests: it fills where the market trades through its limit, as far
    as a queue allows. -/
def workRested (c : SimulationConfig) (x : EventContext) (order : Order)
    (turn : Option QueueTurn) : Except SimulationRefusal SimState :=
  let reached :=
    if turn.any fun turn => ¬ turn.mayFill then none else order.restingFillPrice x.event
  match reached with
  | none => s.restOrEnd order x.event.timestamp order.isImmediate
  | some price =>
    s.workResting c x x.policy order price true order.isImmediate (turn.bind (·.eligible))

def workLimit (c : SimulationConfig) (x : EventContext) (order : Order) (base : Decimal)
    (arriving : Bool) (turn : Option QueueTurn) : Except SimulationRefusal SimState :=
  if arriving then s.workArriving c x order base else s.workRested c x order turn

/-- A stop order's turn: once reached it has one attempt at the price that reached it; a
    stop-limit is marked, and meets the market as a limit order. -/
def workStop (c : SimulationConfig) (x : EventContext) (order : Order) (marketPrice : Decimal)
    (arriving : Bool) : Except SimulationRefusal SimState :=
  match order.stopPriceReached x.event marketPrice arriving with
  | none => s.restOrEnd order x.event.timestamp order.isImmediate
  | some reached =>
    if order.orderType = .stop then s.simulateFill c x order reached
    else do
      let triggered ← s.onPipeline fun p => do
        let orders ← (p.orders.trigger order.orderId x.event.timestamp).mapError .oms
        pure { p with orders := orders }
      let order ← (triggered.pipeline.orderOf order.orderId).mapError .pipeline
      triggered.workArriving c x order reached

def workOrder (c : SimulationConfig) (x : EventContext) (order : Order) (arriving : Bool)
    (turn : Option QueueTurn := none) : Except SimulationRefusal SimState :=
  if order.expireAt.any (· ≤ x.event.timestamp) then s.expire order x.event.timestamp
  else do
    let marketPrice ← s.priceOf order
    if s.venueBlocks x order.assetId marketPrice then
      s.restOrEnd order x.event.timestamp order.isImmediate
    else if order.isAuction then s.workAuction c x order arriving
    else
      match order.orderType with
      | .market => s.simulateFill c x order marketPrice
      | .limit => s.workLimit c x order marketPrice arriving turn
      | .stop => s.workStop c x order marketPrice arriving
      | .stopLimit =>
        if order.triggeredAt.isNone then s.workStop c x order marketPrice arriving
        else s.workLimit c x order marketPrice arriving turn

end SimState

end AlphaLab
