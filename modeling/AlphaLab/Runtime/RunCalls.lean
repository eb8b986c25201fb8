/-
  The calls of a run (`runtime/execution_pipeline.py`): its orders, its market
  events, its cash, its corporate actions and its contracts, in any order.

  `RunCall` is one of them, `runStep` what it does under a configuration whose
  registry does not change; a run is `Runs (runStep c)`, from a book that was
  just opened (`Reached`).
-/
import AlphaLab.Portfolio.SnapshotJson
import AlphaLab.Runtime.ContractCalls
import AlphaLab.Runtime.ReservationRuns

namespace AlphaLab

open Fallible

/-- The calls that work orders; a corporate action and a call of the book alone are
    calls of their own. -/
def PipelineCall.works : PipelineCall → Bool
  | split .. | exchange .. | book .. => false
  | _ => true

def PortfolioCall.movesCash : PortfolioCall → Bool
  | deposit .. | convert .. | recordAccrual .. | closeAccrual .. | cashFlow ..
  | amendPayment .. => true
  | _ => false

inductive RunCall where
  | order (call : PipelineCall)
  /-- `process_market_event`: the book marked at what an event prices, if anything. -/
  | market (update : Option (String × Decimal)) (timestamp : Instant)
  | cash (call : PortfolioCall)
  | amendDelivery (amendment : DeliveryAmendment)
  | split (split : Split) (timestamp : Instant)
  | exchange (request : ExchangeRequest)
  | settle (settlement : ContractSettlement) (timestamp : Instant) (rates : FxRates)
  | exercise (exercise : Exercise) (timestamp : Instant) (rates : FxRates)
  | assign (assignment : Exercise) (timestamp : Instant) (rates : FxRates)
  | ask (strategyId : String) (exercise : Exercise) (timestamp : Instant) (rates : FxRates)
  | expire (expiry : OptionExpiry) (timestamp : Instant) (rates : FxRates)
  | restore

inductive RunCallRefusal where
  | pipeline (refusal : PipelineRefusal)
  | contract (refusal : ContractRefusal)
  | price (assetId : String) (price : Decimal)
  | unreadable (error : DecodeError)
  | otherCall

/-! ## What each does -/

/-- `price_refusal`, of the price an event marks: the instrument still trades, and
    the price is positive or may be negative. -/
def RunConfig.acceptsPrice (c : RunConfig) (timestamp : Instant) (update : String × Decimal) :
    Bool :=
  ((c.declared update.1).bind (·.lastTradeAt)).all (fun last => decide (timestamp ≤ last)) &&
    (decide (0 < update.2) || (c.economicsOf update.1).any (·.allowsNegativePrices))

/-- The ledgers as they are read back: each mapping in the order of its keys. -/
def AllocationState.sorted (a : AllocationState) : AllocationState :=
  { a with
    reservations := a.reservations.sorted
    contributions := a.contributions.sorted
    strategyPositions := a.strategyPositions.map fun held => (held.mapValues Dict.sorted).sorted
    strategyCapital := a.strategyCapital.sorted }

namespace PipelineState

variable (s : PipelineState)

def observedAfter (update : Option (String × Decimal)) : Dict String Decimal :=
  update.elim s.marketPrices fun u => s.marketPrices.set u.1 u.2

/-- The mark of `process_market_event`. -/
def processPrice (c : RunConfig) (update : Option (String × Decimal)) (timestamp : Instant) :
    Except RunCallRefusal PipelineState := do
  require (∀ u ∈ update, c.acceptsPrice timestamp u = true)
    (.price ((update.map Prod.fst).getD "") ((update.map Prod.snd).getD 0))
  let portfolio ← (markChanged s.portfolio (s.observedAfter update) timestamp
    (update.map Prod.fst)).mapError fun r => .pipeline (.portfolio r)
  pure { s with portfolio := portfolio, marketPrices := s.observedAfter update }

/-- `amend_delivery`: the units written off are taken from each strategy too. -/
def amendDelivery (a : DeliveryAmendment) : Except PipelineRefusal PipelineState := do
  let (portfolio, lost) ← (AlphaLab.amendDelivery s.portfolio a).mapError .portfolio
  pure { s with
    portfolio := portfolio
    allocation := if lost = [] then s.allocation else s.allocation.applyLifecycle a.assetId lost }

def moveCash (call : PortfolioCall) : Except RunCallRefusal PipelineState := do
  require (call.movesCash = true) .otherCall
  let portfolio ← (call.apply s.portfolio).mapError fun r => .pipeline (.exchange r)
  pure (s.withPortfolio portfolio)

def readBack : Except DecodeError PipelineState := do
  let snapshot ← fromPrimitives (capture s.portfolio).toJson
  pure { s with
    portfolio := AlphaLab.restore snapshot
    allocation := s.allocation.sorted
    marketPrices := s.marketPrices.sorted }

def call (c : RunConfig) : RunCall → Except RunCallRefusal PipelineState
  | .order _ => throw .otherCall
  | .market update timestamp => s.processPrice c update timestamp
  | .cash call => s.moveCash call
  | .amendDelivery a => (s.amendDelivery a).mapError .pipeline
  | .split split timestamp => (s.applySplit c.pipeline split timestamp).mapError .pipeline
  | .exchange request =>
    (s.applyExchange c.pipeline (c.exchangeContext s.marketPrices) request).mapError .pipeline
  | .settle x timestamp rates => (s.settleContract c x timestamp rates).mapError .contract
  | .exercise x timestamp rates => (s.exercise c x timestamp rates).mapError .contract
  | .assign x timestamp rates => (s.assign c x timestamp rates).mapError .contract
  | .ask strategyId x timestamp rates =>
    (s.strategyExercise c strategyId x timestamp rates).mapError .contract
  | .expire x timestamp rates => (s.expireOption c x timestamp rates).mapError .contract
  | .restore => s.readBack.mapError .unreadable

end PipelineState

def orderStep (c : RunConfig) (s : RoutingState) (call : PipelineCall) :
    Except RunCallRefusal RoutingState := do
  require (call.works = true) .otherCall
  (pipelineStep c.pipeline s call).mapError .pipeline

def bookStep (c : RunConfig) (s : RoutingState) (call : RunCall) :
    Except RunCallRefusal RoutingState := do
  require (s.pending = []) .otherCall
  let after ← s.pipeline.call c call
  pure { s with pipeline := after }

def runStep (c : RunConfig) (s : RoutingState) : RunCall → Except RunCallRefusal RoutingState
  | .order call => orderStep c s call
  | call => bookStep c s call

abbrev Reached (c : RunConfig) (meets : RoutingState → RunCall → Prop) (budget : CapitalBudget)
    (account : Account) : RoutingState → Prop :=
  Runs (runStep c) meets (.initial budget (.opened account) Dict.empty)

def registryOf (records : List ContractRecord) : ContractRegistry :=
  records.foldl Register.put Register.empty

/-- What an order of `orderId` is reported to have filled. -/
def tradeReport (orderId assetId : String) (quantity price : Decimal) (timestamp : Instant) :
    ExecutionReport where
  executionId := orderId
  orderId := orderId
  assetId := assetId
  timestamp := timestamp
  fillPrice := price
  fillQuantity := |quantity|
  commission := 0
  currency := "USD"
  status := .fullFill

/-- A batch of one strategy's trade, its order the `n`-th of the run. -/
def tradeBatch (strategyId assetId : String) (quantity price : Decimal) (n : ℕ) :
    AllocationInput where
  intents := [{ strategyId := strategyId, instrument := assetId, target := quantity }]
  marketPrices := Dict.empty.set assetId price
  sizingModel := fixedQuantitySizing
  constraints := {}
  timestamp := n
  newId := fun k => orderName (n + k)

def tradeCalls (strategyId assetId : String) (quantity price : Decimal) (n : ℕ) : List RunCall :=
  [.order (.allocate (tradeBatch strategyId assetId quantity price n)), .order (.place none n),
    .order (.fill (orderName n) noRates (tradeReport (orderName n) assetId quantity price n))]

def runOf (c : RunConfig) (calls : List RunCall) : Except RunCallRefusal RoutingState :=
  calls.foldlM (runStep c) (.initial { globalCapital := 10000, maximumExposure := 10000 }
    (.opened dollarAccount) Dict.empty)

end AlphaLab
