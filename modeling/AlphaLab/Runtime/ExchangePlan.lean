/-
  The execution pipeline's exchange of a holding
  (`runtime/execution_pipeline.py`): the part exchanged, the plan that
  apportions its basis and units, and the booking handed to the portfolio.

  * `ExchangeContext` is what the pipeline's state says beside its portfolio;
    the checks that only refuse an exchange for what else is held, working or
    observed are not among it, so what is accepted here includes what the
    pipeline accepts.
  * `exchangedPart`, `exchangePlan` and `exchangeBooking` are the three steps,
    `exchangeHolding` the whole.
-/
import AlphaLab.Execution.Algorithms
import AlphaLab.Portfolio.Exchange

namespace AlphaLab

open Fallible

/-! ## What the plan reads -/

/-- What a registry declares of an instrument, as far as an exchange reads it. -/
structure InstrumentRecord where
  symbol : String
  assetType : AssetType
  currency : String
  economics : Option InstrumentEconomics := none

inductive ExchangeRefusal where
  | portfolio (refusal : PortfolioRefusal)
  /-- `InstrumentInputError`: a future or an option declares no economics. -/
  | undeclaredEconomics (symbol : String) (assetType : AssetType)
  | needsRate (assetId fromCurrency toCurrency : String) (at_ : Instant)
      (error : PortfolioRefusal)
  | undeclaredLeg (assetId leg : String)
  | noInLieuPrice (assetId leg : String) (received fraction : Decimal)
  /-- `RuntimeValidationError`: cash in a currency the run does not settle. -/
  | unsettledCurrency (assetId currency : String)
  | notOfItsHolding (strategyId assetId : String) (units share : Decimal)
  /-- `RuntimeValidationError`: part of a book whose strategies hold opposite sides. -/
  | oppositeSides
  | beforeLastEvent (timestamp last : Instant)
  | paymentBefore (timestamp paymentAt : Instant)
deriving DecidableEq

def inPortfolio {α : Type} (x : Except PortfolioRefusal α) : Except ExchangeRefusal α :=
  x.mapError .portfolio

structure ExchangeContext where
  instruments : Option (Dict String InstrumentRecord) := none
  marketPrices : Dict String Decimal := Dict.empty
  enforceIntegerQuantities : Bool := false
  currency : String
  alsoSettles : List String := []
  shares : List (String × Decimal) := []
  lastEvent : Option Instant := none

namespace ExchangeContext

variable (ctx : ExchangeContext)

def declared (assetId : String) : Option InstrumentRecord := ctx.instruments.bind (·.get? assetId)

/-- Whether the run settles `currency`. -/
def settles (currency : String) : Bool := currency = ctx.currency || currency ∈ ctx.alsoSettles

end ExchangeContext

/-- `economics_for`: what an instrument declared, or what its type is. -/
def economicsFor (record : InstrumentRecord) : Except ExchangeRefusal InstrumentEconomics :=
  match record.economics, record.assetType with
  | some declared, _ => pure declared
  | none, .equity | none, .crypto | none, .forex | none, .cash | none, .index => pure cashEquity
  | none, t => .error (.undeclaredEconomics record.symbol t)

/-- The part of `units` a book can hold: whole lots, or whole units if the run
    trades them. -/
def wholePart (ctx : ExchangeContext) (economics : InstrumentEconomics) (units : Decimal) :
    Decimal :=
  match economics.lot with
  | some lot => multiply (roundDown (divide units lot.lotSize)) lot.lotSize
  | none => if ctx.enforceIntegerQuantities then roundDown units else units

/-- `_multiplier` -/
def multiplierOf (economics : Option InstrumentEconomics) : Decimal :=
  economics.elim 1 (·.multiplier)

/-- Each strategy's part is of its own share: its side, and no more than it holds. -/
def partRefusal (assetId : String) (shares part : List (String × Decimal)) :
    Option ExchangeRefusal :=
  part.findSome? fun (strategyId, units) =>
    let share := (Dict.getList strategyId shares).getD 0
    if units ≠ 0 ∧ (decide (0 < units) ≠ decide (0 < share) ∨ |share| < |units|) then
      some (.notOfItsHolding strategyId assetId units share)
    else none

/-- What an exchange takes: the position exchanged, what it leaves, and whose it is. -/
structure ExchangedPart where
  exchanged : Position
  kept : Option (Decimal × Decimal)
  shares : List (String × Decimal)

/-- `_exchanged_part`: the basis apportioned by units, the rest by subtraction. -/
def exchangedPart (ctx : ExchangeContext) (units : CurrencyUnits) (held : Position)
    (part : Dict String Decimal) (timestamp : Instant) :
    Except ExchangeRefusal ExchangedPart := do
  match partRefusal held.assetId ctx.shares part.entries with
  | some refusal => .error refusal
  | none => do
    let taken := (part.entries.insertionSort fun a b => a.1 ≤ b.1).filter (·.2 ≠ 0)
    let quantity := (taken.map Prod.snd).sum
    if quantity = held.quantity then pure ⟨held, none, taken⟩
    else do
      let basis ← inPortfolio (money units
        (divide (multiply held.basis |quantity|) |held.quantity|) held.currency)
      pure ⟨held.rebased quantity basis held.realizedPnl held.marketPrice timestamp,
        some (subtract held.quantity quantity, subtract held.basis basis), taken⟩

/-! ## The plan -/

/-- What a holding exchange moves, planned before anything does. -/
structure ExchangePlan where
  legs : List (ExchangeLeg × ExchangedHolding)
  retainedBasis : Option Decimal
  consideration : Dict String Decimal
  realized : Decimal

structure Planned where
  legs : List (ExchangeLeg × ExchangedHolding) := []
  consideration : Dict String Decimal := Dict.empty
  realized : Decimal := 0

structure Planning where
  ctx : ExchangeContext
  assetId : String
  sign : Decimal
  units : Decimal
  basis : Decimal
  source : String
  at_ : Instant
  rates : FxRates
  accountUnits : CurrencyUnits

/-- `convert` of `_exchange_plan`. -/
def Planning.convert (p : Planning) (amount : Decimal) (fromCurrency toCurrency : String) :
    Except ExchangeRefusal Decimal :=
  if fromCurrency = toCurrency ∨ amount = 0 then pure amount
  else match p.rates.convert amount fromCurrency toCurrency (some p.at_) (some p.accountUnits) with
    | .ok conversion => pure conversion.converted
    | .error (.missingRate b q) =>
      .error (.needsRate p.assetId fromCurrency toCurrency p.at_ (.missingRate b q))
    | .error (.staleRate b q age tolerated) =>
      .error (.needsRate p.assetId fromCurrency toCurrency p.at_ (.staleRate b q age tolerated))
    | .error e => .error (.portfolio e)

/-- Cash an exchange pays or takes in `currency`, signed, with what it already does. -/
def addConsideration (consideration : Dict String Decimal) (currency : String)
    (signedPaid : Decimal) : Dict String Decimal :=
  consideration.set currency (add ((consideration.get? currency).getD 0) signedPaid)

/-- The whole units of a leg a book can hold, of those received. -/
def Planning.wholeOf (p : Planning) (record : Option InstrumentRecord) (received : Decimal) :
    Except ExchangeRefusal Decimal :=
  match record with
  | none => pure received
  | some r => do
    let booked ← economicsFor r
    pure (wholePart p.ctx booked received)

def fractionBasis (carried fraction received : Decimal) : Decimal :=
  divide (multiply carried fraction) received

/-- A leg's fraction paid in cash, if it has one: what it adds to the plan, and
    the basis the whole units are left with. -/
def Planning.payFraction (p : Planning) (leg : ExchangeLeg) (planned : Planned)
    (currency : String) (economics : Option InstrumentEconomics)
    (received fraction carried : Decimal) : Except ExchangeRefusal (Planned × Decimal) :=
  if fraction = 0 then pure (planned, carried)
  else match leg.inLieuPrice with
    | none => .error (.noInLieuPrice p.assetId leg.assetId received fraction)
    | some inLieuPrice => do
      let basis := fractionBasis carried fraction received
      let paid := multiply (multiply fraction inLieuPrice) (multiplierOf economics)
      let converted ← p.convert paid currency p.source
      pure ({ planned with
        consideration := addConsideration planned.consideration currency (multiply p.sign paid)
        realized := add planned.realized (multiply p.sign (subtract converted basis)) },
        subtract carried basis)

def Planning.leg (p : Planning) (planned : Planned) (leg : ExchangeLeg) :
    Except ExchangeRefusal Planned := do
  let record := p.ctx.declared leg.assetId
  require (p.ctx.instruments.isNone ∨ record.isSome) (.undeclaredLeg p.assetId leg.assetId)
  let currency := record.elim p.source (·.currency)
  let economics := record.bind (·.economics)
  let received := multiply p.units leg.ratio
  let whole ← p.wholeOf record received
  let fraction := subtract received whole
  let carried := multiply p.basis leg.basisShare
  let (planned, carried) ←
    p.payFraction leg planned currency economics received fraction carried
  if whole = 0 then pure planned
  else do
    let legBasis ← p.convert carried p.source currency
    let price := (p.ctx.marketPrices.get? leg.assetId).getD
      (divide legBasis (multiply whole (multiplierOf economics)))
    pure { planned with
      legs := planned.legs ++ [(leg,
        ⟨leg.assetId, multiply p.sign whole, legBasis, price, currency, economics⟩)] }

def Planning.cash (p : Planning) (x : HoldingExchange) (planned : Planned) :
    Except ExchangeRefusal Planned :=
  if x.cashPerUnit = 0 then pure planned
  else do
    let currency := x.cashCurrency.getD p.source
    require (p.ctx.settles currency) (.unsettledCurrency x.assetId currency)
    let paid := multiply p.units x.cashPerUnit
    let share := multiply p.basis x.cashBasisShare
    let converted ← p.convert paid currency p.source
    pure { planned with
      consideration := addConsideration planned.consideration currency (multiply p.sign paid)
      realized := add planned.realized (multiply p.sign (subtract converted share)) }

/-- The constants of a plan of `held`'s exchange. -/
def planning (ctx : ExchangeContext) (accountUnits : CurrencyUnits) (x : HoldingExchange)
    (held : Position) (at_ : Instant) (rates : FxRates) : Planning where
  ctx := ctx
  assetId := x.assetId
  sign := if 0 < held.quantity then 1 else -1
  units := |held.quantity|
  basis := held.basis
  source := held.currency
  at_ := at_
  rates := rates
  accountUnits := accountUnits

/-- `_exchange_plan`: a holding's basis and units apportioned across an
    exchange's legs and cash. -/
def exchangePlan (ctx : ExchangeContext) (accountUnits : CurrencyUnits) (x : HoldingExchange)
    (held : Position) (at_ : Instant) (rates : FxRates) : Except ExchangeRefusal ExchangePlan := do
  let p := planning ctx accountUnits x held at_ rates
  let legs ← x.legs.foldlM p.leg {}
  let planned ← p.cash x legs
  pure {
    legs := planned.legs
    retainedBasis := x.retainedBasisShare.map (multiply p.basis ·)
    consideration := planned.consideration
    realized := planned.realized }

/-- Whole units of each share's part, by the rule a schedule is apportioned by. -/
def wholeParts (shares : List (String × Decimal)) (closing : Decimal) : List (String × Decimal) :=
  let units := apportionUnits ⌊|closing|⌋ (shares.map (|·.2|))
  let sign : Decimal := if 0 < closing then 1 else -1
  (shares.map Prod.fst).zip (units.map fun unit : ℤ => sign * (unit : Decimal))

/-- Each share's proportion of `closing`; the last takes what the others leave of it. -/
def proportionalParts (shares : List (String × Decimal)) (closing total : Decimal) :
    List (String × Decimal) :=
  let parts := shares.dropLast.map fun s => (s.1, divide (multiply closing s.2) total)
  let rest := subtract closing (contextSum (parts.map Prod.snd))
  parts ++ shares.getLast?.toList.map fun s => (s.1, rest)

/-- `_strategy_parts`: each strategy's part of `closing` units, by its own share; the shares
    name each strategy once. -/
def strategyParts (shares : List (String × Decimal)) (closing : Decimal) :
    Except ExchangeRefusal (List (String × Decimal)) := do
  if shares = [] then pure []
  else
    let total := contextSum (shares.map Prod.snd)
    if closing = total then pure shares
    else do
      require (∀ s ∈ shares, decide (0 < s.2) = decide (0 < closing)) .oppositeSides
      if ∀ s ∈ shares, roundDown s.2 = s.2 then pure (wholeParts shares closing)
      else pure (proportionalParts shares closing total)

def legParts (shares : List (String × Decimal)) (legs : List (ExchangeLeg × ExchangedHolding)) :
    Except ExchangeRefusal (List (String × List (String × Decimal))) :=
  legs.mapM fun (leg, holding) => do
    let parts ← strategyParts (shares.map fun s => (s.1, multiply s.2 leg.ratio)) holding.quantity
    pure (leg.assetId, parts)

/-- The arguments of the pipeline's `apply_exchange`. -/
structure ExchangeRequest where
  exchange : HoldingExchange
  timestamp : Instant
  rates : FxRates := noRates
  paymentAt : Option Instant := none
  part : Option (Dict String Decimal) := none
  deliversAt : Option (Dict String Instant) := none
  delivery : Option DeliveryConvention := none

def takenPart (ctx : ExchangeContext) (units : CurrencyUnits) (held : Position)
    (r : ExchangeRequest) : Except ExchangeRefusal ExchangedPart :=
  match r.part with
  | none => pure ⟨held, none, ctx.shares⟩
  | some part => exchangedPart ctx units held part r.timestamp

def deliveries (r : ExchangeRequest) (parts : List (String × List (String × Decimal))) :
    Option (Dict String (Instant × List (String × Decimal))) :=
  (r.deliversAt.filter (·.entries ≠ [])).map fun d =>
    Dict.ofList (d.entries.map fun (asset, at_) => (asset, at_, (Dict.getList asset parts).getD []))

def exchangeBooking (ctx : ExchangeContext) (units : CurrencyUnits) (held : Position)
    (r : ExchangeRequest) : Except ExchangeRefusal ExchangeBooking := do
  let taken ← takenPart ctx units held r
  let plan ← exchangePlan ctx units r.exchange taken.exchanged r.timestamp r.rates
  let parts ← legParts taken.shares plan.legs
  pure {
    assetId := r.exchange.assetId
    received := plan.legs.map Prod.snd
    retainedBasis := plan.retainedBasis
    consideration := plan.consideration
    realized := plan.realized
    timestamp := r.timestamp
    reference := r.exchange.reference
    paysAt := r.paymentAt
    kept := taken.kept
    delivers := deliveries r parts
    convention := r.delivery }

/-- `ExecutionPipeline.apply_exchange`, as far as it concerns the portfolio. -/
def exchangeHolding (ctx : ExchangeContext) (s : PortfolioState) (r : ExchangeRequest) :
    Except ExchangeRefusal PortfolioState := do
  require (∀ last ∈ ctx.lastEvent, last ≤ r.timestamp)
    (.beforeLastEvent r.timestamp (ctx.lastEvent.getD 0))
  require (∀ at_ ∈ r.paymentAt, r.timestamp ≤ at_)
    (.paymentBefore r.timestamp (r.paymentAt.getD 0))
  match (s.positions.get? r.exchange.assetId).filter (·.quantity ≠ 0) with
  | none => pure s
  | some held => do
    let booking ← exchangeBooking ctx s.account.currencyUnits held r
    inPortfolio (applyExchange s booking)

end AlphaLab
