/-
  Reopening auctions, and the orders of an asset worked at an event
  (`runtime/execution_pipeline.py`).

  * `computedUncross` is the price of an auction computed from the venue's book and
    the run's orders that waited for it, and what those are allotted;
  * `uncross` crosses what waited at one price, `reopen` holds the auction that is
    due (`auctionDue`);
  * `fillWorkingOrders` gives each order of an asset its turn, behind its queue, or
    holds the auction.
-/
import AlphaLab.Simulation.Work

namespace AlphaLab

open Fallible

/-! ## What is allotted -/

def sumInContext (l : List Decimal) : Decimal := l.foldl add 0

/-- What the levels of a side hold at prices that satisfy a condition. -/
def levelsAt (levels : List (Decimal × Decimal)) (reaches : Decimal → Bool) : Decimal :=
  sumInContext ((levels.filter fun level => reaches level.1).map Prod.snd)

/-- Prices stated once each, in a side's order of priority: a buyer's from the highest, a
    seller's from the lowest. -/
def bestFirst (side : Side) (prices : List Decimal) : List Decimal :=
  match side with
  | .buy => prices.dedup.insertionSort (· ≥ ·)
  | .sell => prices.dedup.insertionSort (· ≤ ·)

namespace AuctionInterest

variable (book : AuctionInterest)

def levels (side : Side) : List (Decimal × Decimal) :=
  match side with
  | .buy => book.bids
  | .sell => book.offers

def atMarket (side : Side) : Decimal :=
  match side with
  | .buy => book.marketBuy
  | .sell => book.marketSell

def interest (own : List Order) (side : Side) (price : Decimal) : Decimal :=
  let reaching := own.filter fun o =>
    o.side = side && (o.orderType = .market || o.withinLimit price)
  (reaching.map (·.remainingQuantity)).foldl add
    (add (book.atMarket side) (levelsAt (book.levels side) (side.within · price)))

/-- What stands on a side from the best price down to an auction's: the published
    quantity and the run's own orders, at market first. -/
def tiers (own : List Order) (side : Side) (price : Decimal) : List (Decimal × List Order) :=
  let mine := own.filter (·.side = side)
  let limits := bestFirst side
    ((mine.filterMap (·.limitPrice) ++ (book.levels side).map Prod.fst).filter
      (side.within · price))
  (book.atMarket side, mine.filter (·.orderType = .market)) ::
    limits.map fun level => (levelsAt (book.levels side) (· = level),
      mine.filter fun o => o.orderType = .limit && o.limitPrice = some level)

end AuctionInterest

/-- `_in_steps`: a quantity rounded down to what the instrument trades in. -/
def inSteps (step : Option Decimal) (quantity : Decimal) : Decimal :=
  match step with
  | none => max 0 quantity
  | some step => if quantity ≤ 0 then 0 else multiply ⌊divide quantity step⌋ step

/-- `_trading_step`: whole lots where declared, whole units where the run trades them. -/
def SimulationConfig.tradingStep (c : SimulationConfig) (assetId : String) (quantity : Decimal) :
    Option Decimal :=
  match (c.pipeline.economics assetId).bind (·.lot) with
  | some lot => some lot.lotSize
  | none => if c.wholeUnits ∨ quantity = ⌊quantity⌋ then some 1 else none

abbrev Allotment := Dict String Decimal

def rationByTime (inStep : Decimal → Decimal) (share : Decimal) (orders : List Order)
    (allotted : Allotment) : Allotment :=
  (orders.foldl (fun (share, allotted) o =>
    let take := inStep (min o.remainingQuantity share)
    (subtract share take, Dict.set allotted o.orderId take)) (share, allotted)).2

/-- Orders alongside the published interest at their price, by quantity. -/
def rationProRata (inStep : Decimal → Decimal) (left standing : Decimal) (orders : List Order)
    (allotted : Allotment) : Allotment :=
  orders.foldl (fun allotted o => allotted.set o.orderId
    (inStep (divide (multiply o.remainingQuantity left) standing))) allotted

/-- What a side's tiers are allotted of a matched volume: in full by priority, and
    rationed where it runs out. -/
def allotTiers (inStep : Decimal → Decimal) (priority : AuctionPriority) :
    Decimal → List (Decimal × List Order) → Allotment → Allotment
  | _, [], allotted => allotted
  | left, (published, orders) :: tiers, allotted =>
    let standing := add published (sumInContext (orders.map (·.remainingQuantity)))
    if standing ≤ left then
      allotTiers inStep priority (subtract left standing) tiers
        (orders.foldl (fun allotted o => allotted.set o.orderId o.remainingQuantity) allotted)
    else match priority with
      | .publishedFirst =>
        rationByTime inStep (max 0 (subtract left published)) orders allotted
      | .proRata => rationProRata inStep left standing orders allotted

/-! ## The uncross -/

structure UncrossOutcome where
  price : Option Decimal := none
  matched : Option Decimal := none
  imbalance : Option Decimal := none
  allotted : Allotment := Dict.empty

structure RankedPrice where
  price : Decimal
  matched : Decimal
  imbalance : Decimal

def mostMatched (ranked : List RankedPrice) : Decimal := (ranked.map (·.matched)).foldl max 0

/-- The prices that match the most and leave the least, from the lowest. -/
def tiedPrices (ranked : List RankedPrice) : List RankedPrice :=
  let best := ranked.filter (·.matched = mostMatched ranked)
  best.filter fun r => best.all fun r' => |r.imbalance| ≤ |r'.imbalance|

/-- How a tie between prices is broken; `none` where the rule cannot. -/
def AuctionTieBreak.choose (rule : AuctionTieBreak) (reference : Option Decimal)
    (tied : List RankedPrice) : Option RankedPrice :=
  match rule with
  | .highest => tied.getLast?
  | .lowest => tied.head?
  | .nearestReference => reference.bind fun reference => tied.find? fun r =>
    tied.all fun r' => |subtract r.price reference| ≤ |subtract r'.price reference|

namespace SimState

variable (s : SimState)

def waiting (assetId : String) (ended : Instant) : List Order :=
  (s.pipeline.workingIn assetId).filter fun o =>
    o.createdAt < ended && (o.orderType = .market || o.orderType = .limit)

def ranked (book : AuctionInterest) (own : List Order) : List RankedPrice :=
  let prices := bestFirst .sell
    (book.bids.map Prod.fst ++ book.offers.map Prod.fst ++ own.filterMap (·.limitPrice))
  prices.map fun price =>
    let demand := book.interest own .buy price
    let supply := book.interest own .sell price
    ⟨price, min demand supply, subtract demand supply⟩

def computedUncross (c : SimulationConfig) (controls : TradingControls) (assetId : String)
    (halt : TradingHalt) (rule : AuctionUncross) (ended : Instant) : UncrossOutcome :=
  match controls.auctionBook assetId halt.start with
  | none => {}
  | some book =>
    let own := s.waiting assetId ended
    let ranked := ranked book own
    let most := mostMatched ranked
    if ranked = [] then {}
    else if most ≤ 0 then { matched := some 0 }
    else match rule.tieBreak.choose (controls.reference assetId) (tiedPrices ranked) with
      | none => { matched := some most }
      | some chosen =>
        let inStep := fun quantity => inSteps (c.tradingStep assetId quantity) quantity
        let bought := allotTiers inStep rule.priority most (book.tiers own .buy chosen.price)
          Dict.empty
        { price := some chosen.price
          matched := some most
          imbalance := some chosen.imbalance
          allotted := allotTiers inStep rule.priority most (book.tiers own .sell chosen.price)
            bought }

def moveQueue (move : QueueBook → QueueBook) : SimState := { s with queue := s.queue.map move }

/-- An order's queue position forgotten, once it no longer works. -/
def leaveQueue (order : Order) : SimState :=
  if order.isOpen then s else s.moveQueue (·.without order.orderId)

/-- What an auction gives an order that waited for it at its price: what the policy gives,
    or what it was allotted. -/
def crossOrder (c : SimulationConfig) (x : EventContext) (order : Order) (price : Decimal)
    (allotted : Option Allotment) : Except SimulationRefusal SimState :=
  let market : Bool := order.orderType = .market
  match allotted with
  | none => s.workResting c x x.policy order price true market
  | some allotted =>
    let allot := min ((allotted.get? order.orderId).getD 0) order.remainingQuantity
    if allot ≤ 0 then s.restOrEnd order x.event.timestamp market
    else
      let whole : Bool := allot = order.remainingQuantity
      let given := staticFill (if whole then .fullFill else .partialFill) (some allot)
      s.workResting c x given order price true market

/-- Whether an auction at a price reaches an order: any market order, and a limit order
    within its limit. -/
def reaches (order : Order) (price : Decimal) : Bool :=
  order.orderType = .market || (order.orderType = .limit && order.withinLimit price)

/-- One order of an auction: it crosses if it waited and is reached; placed after the halt
    ended, its turn is continuous trading's. -/
def uncrossTurn (c : SimulationConfig) (x : EventContext) (price : Decimal) (ended : Instant)
    (allotted : Option Allotment) (orderId : String) : Except SimulationRefusal SimState := do
  let order ← (s.pipeline.orderOf orderId).mapError .pipeline
  if ended ≤ order.createdAt then s.workOrder c x order false
  else if ¬ reaches order price then pure s
  else do
    let crossed ← s.crossOrder c x order price allotted
    let after ← (crossed.pipeline.orderOf orderId).mapError .pipeline
    pure (crossed.leaveQueue after)

/-- `_uncross`: every order that waited crosses at one price. -/
def uncross (c : SimulationConfig) (x : EventContext) (assetId : String) (price : Decimal)
    (ended : Instant) (allotted : Option Allotment) : Except SimulationRefusal SimState :=
  if s.venueBlocks x assetId price then pure s
  else (s.pipeline.orders.workingOrdersFor assetId).foldlM
    (fun s orderId => s.uncrossTurn c x price ended allotted orderId) s

/-! ## Reopenings -/

/-- `_auction_due`: the halt whose reopening auction is held at an event, and its end. -/
def auctionDue (x : EventContext) (assetId : String) : Option (TradingHalt × Instant) := do
  let controls ← x.controls
  let halt ← controls.reopenedByAuction assetId
  let halted ← halt.end
  match s.reopened.get? assetId with
  | none => some (halt, halted)
  | some held =>
    if held.haltEnd < halted then some (halt, halted)
    else if held.extendedTo.any (· ≤ x.event.timestamp) then some (halt, halted)
    else none

/-- Until when the auction of a halt that ended at `halted` was extended, if it was. -/
def extendedTo (assetId : String) (halted : Instant) : Option Instant :=
  ((s.reopened.get? assetId).filter (·.haltEnd = halted)).bind (·.extendedTo)

/-- Orders placed before this instant waited for the auction: the halt's end, or that of
    the extension it was held over to. -/
def waitedUntil (assetId : String) (halted : Instant) : Instant :=
  (s.extendedTo assetId halted).getD halted

def heldAuction (assetId : String) (held : AuctionReopening) : SimState :=
  { s with reopened := s.reopened.set assetId held }

def reopenPrinted (c : SimulationConfig) (x : EventContext) (assetId : String)
    (halted : Instant) : Except SimulationRefusal SimState :=
  let print := x.event.openingPrint
  let current := s.heldAuction assetId
    { haltEnd := halted, «at» := x.event.timestamp, price := print }
  match print with
  | none => pure current
  | some price => current.uncross c x assetId price (s.waitedUntil assetId halted) none

/-- A reopening computed from the venue's book: outside the band it is extended once, or
    nothing crosses. -/
def reopenComputed (c : SimulationConfig) (x : EventContext) (controls : TradingControls)
    (assetId : String) (halt : TradingHalt) (rule : AuctionUncross) (halted : Instant) :
    Except SimulationRefusal SimState :=
  let ended := s.waitedUntil assetId halted
  let outcome := s.computedUncross c controls assetId halt rule ended
  let held : AuctionReopening := {
    haltEnd := halted
    «at» := x.event.timestamp
    price := outcome.price
    matched := outcome.matched
    imbalance := outcome.imbalance }
  match outcome.price with
  | none => pure (s.heldAuction assetId held)
  | some price =>
    if s.venueBlocks x assetId price then
      match rule.extension, s.extendedTo assetId halted with
      | some extension, none => pure (s.heldAuction assetId
          { held with price := none, extendedTo := some (x.event.timestamp + extension) })
      | _, _ => pure (s.heldAuction assetId { held with price := none })
    else (s.heldAuction assetId held).uncross c x assetId price ended (some outcome.allotted)

def reopen (c : SimulationConfig) (x : EventContext) (assetId : String) (halt : TradingHalt)
    (halted : Instant) : Except SimulationRefusal SimState :=
  match halt.uncross, x.controls with
  | some rule, some controls => s.reopenComputed c x controls assetId halt rule halted
  | _, _ => s.reopenPrinted c x assetId halted

/-- What an event makes of an order's queue position, and how much of it may fill. -/
def queueTurn (x : EventContext) (order : Order) : Option QueueTurn :=
  match s.queue, order.limitPrice with
  | some book, some limit =>
    if order.isQueued then
      let position := ((book.positions.get? order.orderId).filter (·.limitPrice = limit)).getD
        ⟨limit, none⟩
      some (book.model.advance position order.side x.event.queueObservation)
    else none
  | _, _ => none

def queueAt (order : Order) (turn : Option QueueTurn) : SimState :=
  turn.elim s fun turn => s.moveQueue (·.placed order.orderId turn.position)

def joinQueue (x : EventContext) (order : Order) : SimState :=
  match order.limitPrice with
  | none => s
  | some limit =>
    if order.isQueued then
      s.moveQueue fun book => book.placed order.orderId
        (book.model.join order.side limit x.event.queueObservation)
    else s

def workTurn (c : SimulationConfig) (x : EventContext) (orderId : String) :
    Except SimulationRefusal SimState := do
  let order ← (s.pipeline.orderOf orderId).mapError .pipeline
  let turn := s.queueTurn x order
  let worked ← (s.queueAt order turn).workOrder c x order false turn
  let after ← (worked.pipeline.orderOf orderId).mapError .pipeline
  if ¬ after.isOpen then pure (worked.leaveQueue after)
  -- a stop-limit triggered at this event rests from here
  else if turn.isNone then pure (worked.joinQueue x after)
  else pure worked

def auctionAt (x : EventContext) (assetId : String) : Option (TradingHalt × Instant) :=
  if x.controls.any (·.auctions) then s.auctionDue x assetId else none

def fillWorkingOrders (c : SimulationConfig) (x : EventContext) (assetId : String) :
    Except SimulationRefusal SimState :=
  match s.auctionAt x assetId with
  | some (halt, halted) => s.reopen c x assetId halt halted
  | none => (s.pipeline.orders.workingOrdersFor assetId).foldlM
      (fun s orderId => s.workTurn c x orderId) s

/-! ## Calls -/

def marked (event : MarketEvent) : SimState :=
  event.marketPrice.elim s fun (assetId, price) =>
    { s with pipeline := { s.pipeline with
        marketPrices := s.pipeline.marketPrices.set assetId price } }

/-- The orders an event works: those of the asset whose price it moves. -/
def workEvent (c : SimulationConfig) (x : EventContext) : Except SimulationRefusal SimState :=
  let current := s.marked x.event
  match x.event.marketPrice with
  | none => pure current
  | some (assetId, _) =>
    if c.pipeline.routing = .simulated ∧ (current.pipeline.orders.workingOrdersFor assetId ≠ [] ∨
        x.controls.any (·.auctions)) then
      current.fillWorkingOrders c x assetId
    else pure current

end SimState

def OrderTerms.isAuction (terms : OrderTerms) : Bool :=
  terms.timeInForce = .opg || terms.timeInForce = .cls

/-- `_needs_session_close`: a resting day order that states no close. -/
def OrderTerms.needsSessionClose (terms : OrderTerms) : Bool :=
  !terms.isImmediate && (terms.isAuction || terms.orderType ≠ .market) &&
    terms.timeInForce = .day && terms.expireAt.isNone

/-- When a request's order expires, if it may be placed: not past its own expiry, nor
    without a close where it needs one (`_terms_refusal`, `_submit_and_accept_order`). -/
def SimulationConfig.expiryOf (c : SimulationConfig) (request : OrderRequest) (instant : Instant) :
    Option (Option Instant) :=
  if request.terms.expireAt.any (· ≤ instant) then none
  else if request.terms.needsSessionClose then (c.dayClose request.assetId instant).map some
  else some request.terms.expireAt

namespace SimState

variable (s : SimState)

/-- An order that has arrived, at the event it was placed on: it is worked there, unless it
    rests until the next. -/
def workArrival (c : SimulationConfig) (x : EventContext) (orderId : String) (rest : Bool) :
    Except SimulationRefusal SimState := do
  let order ← (s.pipeline.orderOf orderId).mapError .pipeline
  if rest ∨ c.nextEvent then pure s else s.workOrder c x order true

/-- `_route_requests`, of one request: it becomes an order and has its first turn, or its
    terms refuse it. -/
def arrive (c : SimulationConfig) (x : EventContext) (rest : Bool) :
    Except SimulationRefusal SimState :=
  match s.pending with
  | [] => throw .notSimulated
  | request :: pending =>
    match c.expiryOf request x.event.timestamp with
    | none => pure { s with
        pipeline := s.pipeline.retireDroppedRequest request.orderId x.event.timestamp
        pending := pending }
    | some expireAt => do
      let placed ← (s.pipeline.submitAndAccept request expireAt x.event.timestamp).mapError
        .pipeline
      { s with pipeline := placed, pending := pending }.workArrival c x request.orderId rest

def positionOf (orderId : String) : Option QueuePosition :=
  s.queue.bind (·.positions.get? orderId)

def workingCount (assetId : String) : ℕ := (s.pipeline.orders.workingOrdersFor assetId).length

/-- One order that a step left resting joins its queue, unless it stands in one. -/
def joinPlaced (x : EventContext) (orderId : String) : SimState :=
  if (s.positionOf orderId).isSome then s
  else (s.pipeline.orders.get? orderId).elim s fun order => s.joinQueue x order

/-- `_queue_after_step`: of the orders working in the event's asset, those after the
    `restingBefore` that worked when the step began to place orders join their queues. -/
def queueAfterStep (c : SimulationConfig) (x : EventContext) (restingBefore : ℕ) : SimState :=
  match x.event.marketPrice with
  | none => s
  | some (assetId, _) =>
    if c.pipeline.routing ≠ .simulated ∨ s.workingCount assetId = restingBefore then s
    else ((s.pipeline.orders.workingOrdersFor assetId).drop restingBefore).foldl
      (fun s orderId => s.joinPlaced x orderId) s

end SimState

inductive SimCall where
  /-- `process_market_event`, up to the strategies: the orders working are worked. -/
  | event (x : EventContext)
  | arrive (x : EventContext) (rest : Bool)
  | call (call : PipelineCall)
  /-- The end of `process_market_event`, and how many orders worked when it began to place. -/
  | endStep (x : EventContext) (restingBefore : ℕ)

def PipelineCall.tradesNothing : PipelineCall → Bool
  | .place .. | .fill .. | .venueReport .. | .trigger .. => false
  | .allocate .. | .drop .. | .finish .. | .outcome .. | .reduce .. | .replacementRefused ..
  | .split .. | .exchange .. | .book .. => true

def simStep (c : SimulationConfig) (s : SimState) : SimCall → Except SimulationRefusal SimState
  | .event x => s.workEvent c x
  | .arrive x rest => s.arrive c x rest
  | .call call => do
    require (call.tradesNothing = true) .notSimulated
    let routed ← (pipelineStep c.pipeline ⟨s.pipeline, s.pending⟩ call).mapError .pipeline
    pure { s with pipeline := routed.pipeline, pending := routed.pending }
  | .endStep x restingBefore => pure (s.queueAfterStep c x restingBefore)

end AlphaLab
