/-
  The calls that move a run's orders and ledgers (`runtime/execution_pipeline.py`).

  * a batch is allocated, and each of its requests dropped or placed; an order is
    filled, ended, or reduced in place; a split or an exchange cancels what works
    in its instrument;
  * `PipelineCall` is one of these, `pipelineStep` what it does.  A market event,
    a venue's report and an amendment are such calls one after another, and
    `RoutingState` is the pipeline between them.
-/
import AlphaLab.Runtime.BookRuns
import AlphaLab.Runtime.Pipeline

namespace AlphaLab

open Fallible

/-! ## Amending in place -/

def addsToAccount (held delta : Decimal) : Decimal := max 0 (subtract |add held delta| |held|)

/-- `_still_added`: the share of `reserved` that an order cut from `was` to `now` still
    adds to `before`. -/
def stillAdded (reserved before was now : Decimal) (adds : Decimal → Decimal → Decimal) :
    Decimal :=
  let added := adds before was
  -- it adds nothing to the book as it stands: it keeps the share of its quantity
  if added = 0 then divide (multiply reserved |now|) |was|
  else divide (multiply reserved (adds before now)) added

namespace PipelineState

variable (s : PipelineState)

def workingIn (assetId : String) : List Order :=
  (s.orders.workingOrdersFor assetId).filterMap s.orders.get?

/-- `_committed_positions`, of one asset: filled, plus what is working. -/
def committedPosition (assetId : String) : Decimal :=
  (s.workingIn assetId).foldl (fun total o => add total (o.side.signed o.remainingQuantity))
    ((s.portfolio.positions.get? assetId).elim 0 (·.quantity))

/-- `_working_shares`, of one strategy and asset. -/
def workingShare (strategyId assetId : String) : Except PipelineRefusal Decimal :=
  (s.workingIn assetId).foldlM (fun total o => do
    let signed := o.side.signed o.remainingQuantity
    let parts ← orRefuse
      (splitByContribution signed (s.allocation.contributionsFor o.orderId) positionPlaces)
      (.ledger (.splitTooLong o.orderId signed))
    pure ((parts.filter (·.1 = strategyId)).foldl (fun total part => add total part.2) total)) 0

/-- What an order's reservation keeps when it is cut to `remaining`. -/
def reservationKept (order : Order) (sign remaining reserved : Decimal) : Decimal :=
  let was := multiply sign order.remainingQuantity
  stillAdded reserved (subtract (s.committedPosition order.assetId) was) was
    (multiply sign remaining) addsToAccount

end PipelineState

def AllocationState.cutReservation (a : AllocationState) (orderId : String)
    (reserved kept : Decimal) : AllocationState :=
  { a with
    reservations := a.reservations.set orderId kept
    notionalAllocated := subtract a.notionalAllocated (subtract reserved kept) }

namespace PipelineState

variable (s : PipelineState)

def cutEntry (order : Order) (sign remaining : Decimal) : AllocationState :=
  match s.allocation.reservations.get? order.orderId with
  | none => s.allocation
  | some reserved =>
    if order.remainingQuantity = 0 then s.allocation
    else s.allocation.cutReservation order.orderId reserved
      (s.reservationKept order sign remaining reserved)

def reduceCapital (a : AllocationState) (order : Order) (strategyId : String)
    (sign remaining : Decimal) : Except PipelineRefusal AllocationState :=
  match a.strategyCapital.get? strategyId with
  | none => pure a
  | some capital =>
    match capital.reserved.get? order.orderId with
    | none => pure a
    | some heldBack => do
      let was := multiply sign order.remainingQuantity
      let working ← s.workingShare strategyId order.assetId
      let before := subtract (add (a.positionOf strategyId order.assetId) working) was
      pure (a.setCapital strategyId (capital.reduce order.orderId
        (stillAdded heldBack before was (multiply sign remaining) addingExposure)))

/-- `_reduce_in_place`: an order with `remaining` left working. -/
def reduceInPlace (orderId : String) (remaining : Decimal) (timestamp : Instant) :
    Except PipelineRefusal PipelineState := do
  let order ← (s.orders.find orderId).mapError .oms
  let total := add order.filledQuantity remaining
  let orders ← (s.orders.update orderId (·.replace total timestamp none)).mapError .oms
  match s.allocation.contributionsFor orderId with
  | [contribution] => do
    let sign : Decimal := if 0 < contribution.quantity then 1 else -1
    let reduced ← s.reduceCapital (s.cutEntry order sign remaining) order
      contribution.strategyId sign remaining
    pure { s with
      orders := orders
      allocation := { reduced with
        contributions := s.allocation.contributions.set orderId
          [{ contribution with quantity := multiply sign total }] } }
  | _ => throw (.notOneContribution orderId)

/-- The orders working in an instrument cancelled at a corporate action, as a venue
    does; where a venue holds them, the action waits for its reports. -/
def cancelWorking (c : PipelineConfig) (assetId : String) (timestamp : Instant) :
    Except PipelineRefusal PipelineState := do
  let working := s.orders.workingOrdersFor assetId
  require (c.routing = .external → working = []) (.workingAtVenue assetId)
  working.foldlM (fun s orderId => s.endUnfilled orderId timestamp) s

def applySplit (c : PipelineConfig) (split : Split) (timestamp : Instant) :
    Except PipelineRefusal PipelineState := do
  let current ← s.cancelWorking c split.assetId timestamp
  let portfolio ←
    if (current.portfolio.positions.get? split.assetId).isSome then
      (AlphaLab.applySplit current.portfolio split timestamp).mapError .portfolio
    else pure current.portfolio
  pure { current with
    portfolio := portfolio
    allocation := current.allocation.applySplit split.assetId split.ratio
    marketPrices := (current.marketPrices.get? split.assetId).elim current.marketPrices
      fun price => current.marketPrices.set split.assetId (divide price split.ratio) }

end PipelineState

/-- One leg of an exchange in each strategy's own positions; the first closes the
    holding. -/
def exchangeLegShares (c : PipelineConfig) (rates : FxRates) (assetId : String)
    (closed : List (String × Decimal)) (parts : List (String × List (String × Decimal)))
    (timestamp : Instant) (a : AllocationState)
    (leg : (ExchangeLeg × ExchangedHolding) × ℕ) : Except PipelineRefusal AllocationState := do
  let holding := leg.1.2
  let value ← inBudgetCurrency c rates (multiply holding.price (multiplierOf holding.economics))
    holding.currency timestamp
  let received := (Dict.getList leg.1.1.assetId parts).getD []
  pure (a.applyLifecycle assetId (if leg.2 = 0 then closed else [])
    (some (leg.1.1.assetId, received, value)))

def exchangeShares (c : PipelineConfig) (rates : FxRates) (x : HoldingExchange)
    (shares : List (String × Decimal)) (legs : List (ExchangeLeg × ExchangedHolding))
    (parts : List (String × List (String × Decimal))) (timestamp : Instant)
    (a : AllocationState) : Except PipelineRefusal AllocationState := do
  let closed := if x.retainedBasisShare.isSome then [] else shares
  let exchanged ←
    legs.zipIdx.foldlM (exchangeLegShares c rates x.assetId closed parts timestamp) a
  pure (if legs = [] ∧ closed ≠ [] then exchanged.applyLifecycle x.assetId closed else exchanged)

namespace PipelineState

variable (s : PipelineState)

def applyExchange (c : PipelineConfig) (ctx : ExchangeContext) (r : ExchangeRequest) :
    Except PipelineRefusal PipelineState := do
  let current ← s.cancelWorking c r.exchange.assetId r.timestamp
  let ctx := { ctx with shares := current.allocation.sharesOf r.exchange.assetId }
  let units := current.portfolio.account.currencyUnits
  match (current.portfolio.positions.get? r.exchange.assetId).filter (·.quantity ≠ 0) with
  | none => pure current
  | some held => do
    let taken ← (takenPart ctx units held r).mapError .exchange
    let plan ←
      (exchangePlan ctx units r.exchange taken.exchanged r.timestamp r.rates).mapError .exchange
    let parts ← (legParts taken.shares plan.legs).mapError .exchange
    let portfolio ← (exchangeHolding ctx current.portfolio r).mapError .exchange
    let allocation ←
      exchangeShares c r.rates r.exchange taken.shares plan.legs parts r.timestamp
        current.allocation
    pure { current with portfolio := portfolio, allocation := allocation }

end PipelineState

/-! ## Calls -/

/-- The pipeline, and what it has not routed yet of the batch it allocated last. -/
structure RoutingState where
  pipeline : PipelineState
  pending : List OrderRequest := []

inductive PipelineCall where
  | allocate (batch : AllocationInput)
  /-- `_route_requests`: the next request is refused before it is an order. -/
  | drop (timestamp : Instant)
  /-- `_route_requests`: the next request becomes a working order. -/
  | place (expireAt : Option Instant) (timestamp : Instant)
  | fill (orderId : String) (rates : FxRates) (report : ExecutionReport)
  | venueReport (orderId : String) (rates : FxRates) (report : ExecutionReport)
  /-- `_expire`, `_end_unfilled`, `_close_unfilled_order`: an order ends without
      trading any more. -/
  | finish (orderId : String) (ending : OrderEnding) (timestamp : Instant)
  | outcome (orderId : String) (outcome : OrderStatus) (timestamp : Instant)
  | trigger (orderId : String) (timestamp : Instant)
  | reduce (orderId : String) (remaining : Decimal) (timestamp : Instant)
  /-- `_replace_atomically`, its replacement refused: what judged it stays on record. -/
  | replacementRefused (orderId : String) (timestamp : Instant) (batch : AllocationInput)
  | split (split : Split) (timestamp : Instant)
  | exchange (ctx : ExchangeContext) (request : ExchangeRequest)
  | book (call : PortfolioCall) (marketPrices : Dict String Decimal)

namespace PipelineState

variable (s : PipelineState)

def orderOf (orderId : String) : Except PipelineRefusal Order :=
  (s.orders.find orderId).mapError .oms

/-- A replacement judged against the book without the order, and refused: the book
    is as it was, and only the log of the allocation differs. -/
def replacementRefused (orderId : String) (timestamp : Instant) (batch : AllocationInput) :
    Except PipelineRefusal PipelineState := do
  let trial ← s.endUnfilled orderId timestamp
  let judged := (allocate trial.allocation batch).1.events.drop trial.allocation.events.length
  pure (s.withAllocation { s.allocation with events := s.allocation.events ++ judged })

end PipelineState

def pipelineStep (c : PipelineConfig) (s : RoutingState) :
    PipelineCall → Except PipelineRefusal RoutingState
  | .allocate batch => do
    require (s.pending = []) .routing
    let allocated := allocate s.pipeline.allocation batch
    pure ⟨s.pipeline.withAllocation allocated.1, allocated.2⟩
  | .drop timestamp =>
    match s.pending with
    | [] => throw .routing
    | request :: rest => pure ⟨s.pipeline.retireDroppedRequest request.orderId timestamp, rest⟩
  | .place expireAt timestamp =>
    match s.pending with
    | [] => throw .routing
    | request :: rest => do
      let placed ← s.pipeline.submitAndAccept request expireAt timestamp
      pure ⟨placed, rest⟩
  | .fill orderId rates report => do
    let order ← s.pipeline.orderOf orderId
    let filled ← s.pipeline.applyReport c rates order { report with orderId := orderId }
    pure { s with pipeline := filled }
  | .venueReport orderId rates report => do
    let order ← s.pipeline.orderOf orderId
    let filled ← s.pipeline.applyExecutionReport c rates order { report with orderId := orderId }
    pure { s with pipeline := filled }
  | .finish orderId ending timestamp => do
    let ended ← s.pipeline.ended orderId ending timestamp
    pure { s with pipeline := ended }
  | .outcome orderId outcome timestamp => do
    let ended ← s.pipeline.applyTerminalOutcome orderId outcome timestamp
    pure { s with pipeline := ended }
  | .trigger orderId timestamp => do
    let orders ← (s.pipeline.orders.trigger orderId timestamp).mapError .oms
    pure { s with pipeline := { s.pipeline with orders := orders } }
  | .reduce orderId remaining timestamp => do
    let reduced ← s.pipeline.reduceInPlace orderId remaining timestamp
    pure { s with pipeline := reduced }
  | .replacementRefused orderId timestamp batch => do
    let kept ← s.pipeline.replacementRefused orderId timestamp batch
    pure { s with pipeline := kept }
  | .split split timestamp => do
    let after ← s.pipeline.applySplit c split timestamp
    pure { s with pipeline := after }
  | .exchange ctx request => do
    let after ← s.pipeline.applyExchange c ctx request
    pure { s with pipeline := after }
  | .book call marketPrices => do
    let portfolio ← (call.apply s.pipeline.portfolio).mapError .exchange
    pure { s with pipeline := { s.pipeline with
      portfolio := portfolio
      marketPrices := marketPrices } }

/-- **What an accepted call found and did.** -/
inductive PipelineStep (c : PipelineConfig) (s : RoutingState) :
    PipelineCall → RoutingState → Prop where
  | allocate {batch : AllocationInput} (hpending : s.pending = []) :
    PipelineStep c s (.allocate batch)
      ⟨s.pipeline.withAllocation (allocate s.pipeline.allocation batch).1,
        (allocate s.pipeline.allocation batch).2⟩
  | drop {request : OrderRequest} {rest : List OrderRequest} {timestamp : Instant}
      (hpending : s.pending = request :: rest) :
    PipelineStep c s (.drop timestamp)
      ⟨s.pipeline.retireDroppedRequest request.orderId timestamp, rest⟩
  | place {request : OrderRequest} {rest : List OrderRequest} {expireAt : Option Instant}
      {timestamp : Instant} {placed : PipelineState} (hpending : s.pending = request :: rest)
      (hplaced : s.pipeline.submitAndAccept request expireAt timestamp = .ok placed) :
    PipelineStep c s (.place expireAt timestamp) ⟨placed, rest⟩
  | fill {orderId : String} {rates : FxRates} {report : ExecutionReport} {order : Order}
      {filled : PipelineState} (ho : s.pipeline.orders.get? orderId = some order)
      (hfilled : s.pipeline.applyReport c rates order { report with orderId := orderId } =
        .ok filled) :
    PipelineStep c s (.fill orderId rates report) { s with pipeline := filled }
  | repeated {orderId : String} {rates : FxRates} {report : ExecutionReport} :
    PipelineStep c s (.venueReport orderId rates report) s
  | venueReport {orderId : String} {rates : FxRates} {report : ExecutionReport} {order : Order}
      {filled : PipelineState} (ho : s.pipeline.orders.get? orderId = some order)
      (hfilled : (s.pipeline.recordVenueExecution { report with orderId := orderId }).applyReport
        c rates order { report with orderId := orderId } = .ok filled) :
    PipelineStep c s (.venueReport orderId rates report) { s with pipeline := filled }
  | finish {orderId : String} {ending : OrderEnding} {timestamp : Instant}
      {ended : PipelineState} (hended : s.pipeline.ended orderId ending timestamp = .ok ended) :
    PipelineStep c s (.finish orderId ending timestamp) { s with pipeline := ended }
  | outcome {orderId : String} {outcome : OrderStatus} {ending : OrderEnding}
      {timestamp : Instant} {ended : PipelineState}
      (hended : s.pipeline.ended orderId ending timestamp = .ok ended) :
    PipelineStep c s (.outcome orderId outcome timestamp) { s with pipeline := ended }
  | triggered {orderId : String} {timestamp : Instant} :
    PipelineStep c s (.trigger orderId timestamp) s
  | trigger {orderId : String} {timestamp : Instant} {o : Order}
      (ho : s.pipeline.orders.get? orderId = some o) :
    PipelineStep c s (.trigger orderId timestamp) { s with pipeline := { s.pipeline with
      orders := s.pipeline.orders.put { o with triggeredAt := some timestamp } } }
  | reduce {orderId : String} {remaining : Decimal} {timestamp : Instant}
      {reduced : PipelineState}
      (hreduced : s.pipeline.reduceInPlace orderId remaining timestamp = .ok reduced) :
    PipelineStep c s (.reduce orderId remaining timestamp) { s with pipeline := reduced }
  | replacementRefused {orderId : String} {timestamp : Instant} {batch : AllocationInput}
      {trial : PipelineState} (htrial : s.pipeline.endUnfilled orderId timestamp = .ok trial) :
    PipelineStep c s (.replacementRefused orderId timestamp batch) { s with
      pipeline := s.pipeline.withAllocation { s.pipeline.allocation with
        events := s.pipeline.allocation.events ++
          (allocate trial.allocation batch).1.events.drop trial.allocation.events.length } }
  | split {sp : Split} {timestamp : Instant} {after : PipelineState}
      (hafter : s.pipeline.applySplit c sp timestamp = .ok after) :
    PipelineStep c s (.split sp timestamp) { s with pipeline := after }
  | exchange {ctx : ExchangeContext} {request : ExchangeRequest} {after : PipelineState}
      (hafter : s.pipeline.applyExchange c ctx request = .ok after) :
    PipelineStep c s (.exchange ctx request) { s with pipeline := after }
  | book {call : PortfolioCall} {marketPrices : Dict String Decimal} {portfolio : PortfolioState}
      (hportfolio : call.apply s.pipeline.portfolio = .ok portfolio) :
    PipelineStep c s (.book call marketPrices) { s with pipeline := { s.pipeline with
      portfolio := portfolio
      marketPrices := marketPrices } }

theorem pipelineStep_cases {c : PipelineConfig} {s s' : RoutingState} {call : PipelineCall}
    (h : pipelineStep c s call = .ok s') : PipelineStep c s call s' := by
  cases call with
  | allocate batch =>
    simp only [pipelineStep, bind_ok, require_ok, pure_ok, exists_const] at h
    obtain ⟨hpending, rfl⟩ := h
    exact .allocate hpending
  | drop timestamp =>
    simp only [pipelineStep] at h
    split at h
    · cases h
    · rename_i request rest hpending
      obtain rfl := pure_ok.mp h
      exact .drop hpending
  | place expireAt timestamp =>
    simp only [pipelineStep] at h
    split at h
    · cases h
    · rename_i request rest hpending
      obtain ⟨placed, hplaced, h⟩ := bind_ok.mp h
      obtain rfl := pure_ok.mp h
      exact .place hpending hplaced
  | fill orderId rates report =>
    simp only [pipelineStep, PipelineState.orderOf, bind_ok, mapError_ok, OrderBook.find,
      orRefuse_ok, pure_ok] at h
    obtain ⟨order, ho, filled, hfilled, rfl⟩ := h
    exact .fill ho hfilled
  | venueReport orderId rates report =>
    simp only [pipelineStep, PipelineState.orderOf, bind_ok, mapError_ok, OrderBook.find,
      orRefuse_ok, pure_ok] at h
    obtain ⟨order, ho, filled, hfilled, rfl⟩ := h
    unfold PipelineState.applyExecutionReport at hfilled
    split_ifs at hfilled
    · obtain rfl := pure_ok.mp hfilled
      exact .repeated
    · exact .venueReport ho hfilled
  | trigger orderId timestamp =>
    simp only [pipelineStep, bind_ok, mapError_ok, OrderBook.trigger, OrderBook.find, orRefuse_ok,
      pure_ok] at h
    obtain ⟨orders, ⟨o, ho, rfl⟩, rfl⟩ := h
    split_ifs
    · exact .triggered
    · exact .trigger ho
  | outcome orderId outcome timestamp =>
    simp only [pipelineStep, PipelineState.applyTerminalOutcome, bind_ok, pure_ok] at h
    obtain ⟨ended, ⟨ending, -, hended⟩, rfl⟩ := h
    exact .outcome hended
  | replacementRefused orderId timestamp batch =>
    simp only [pipelineStep, PipelineState.replacementRefused, bind_ok, pure_ok] at h
    obtain ⟨kept, ⟨trial, htrial, rfl⟩, rfl⟩ := h
    exact .replacementRefused htrial
  | book call marketPrices =>
    obtain ⟨portfolio, hportfolio, h⟩ := bind_ok.mp h
    obtain rfl := pure_ok.mp h
    exact .book (mapError_ok.mp hportfolio)
  | finish | reduce | split | exchange =>
    obtain ⟨after, hafter, h⟩ := bind_ok.mp h
    obtain rfl := pure_ok.mp h
    constructor
    exact hafter

end AlphaLab
