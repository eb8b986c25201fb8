/-
  What happens to a contract at exercise, assignment, settlement and expiry
  (`runtime/execution_pipeline.py`).

  * `lifecycleFill` books units through the one fill of the portfolio;
  * `deliver` moves a deliverable against a price, `bookPackage` several against
    a consideration;
  * `resolveOption` exercises or assigns by the option's terms, and `exercise`,
    `assign`, `strategyExercise` and `expireOption` come through it;
  * `settleContract` closes a contract at its final price.

  What the source refuses for something already moved is refused here before it.
-/
import AlphaLab.Runtime.Contracts

namespace AlphaLab

open Fallible

/-- `RuntimeValidationError` of a contract's life, by the instrument it is about. -/
inductive ContractRefusal where
  | pipeline (refusal : PipelineRefusal)
  | undeclared (assetId : String)
  | noTerms (assetId : String)
  | doesNotExpire (assetId : String)
  | stillTrades (assetId : String) (timestamp : Instant)
  | notSettledAtExpiry (assetId : String)
  | priceNotAdmitted (assetId : String) (price : Decimal)
  | termsDeclared (assetId : String)
  | outsideWindow (assetId : String) (timestamp : Instant)
  | working (assetId : String) (orders : ℕ)
  | notHeld (assetId : String) (held : Decimal)
  | valueNotRead (assetId : String)
  | valueNotStated (assetId : String)
  | notObserved (assetId : String)
  | twoCurrencies (assetId : String)
  | fraction (assetId : String) (fraction : Decimal)
  | wouldShort (assetId : String) (held : Decimal)
  | notFinanced (assetId : String) (cash : Decimal)
  | belowInitialMargin (assetId : String)
  | cashCoversStrike (assetId : String)
  | nothingWhole (assetId : String)
  | lieuCoversCost (assetId : String)
  | worthNothing (assetId : String)

def inBook {α : Type} (x : Except PortfolioRefusal α) : Except ContractRefusal α :=
  x.mapError fun r => .pipeline (.portfolio r)

def inPipeline {α : Type} (x : Except PipelineRefusal α) : Except ContractRefusal α :=
  x.mapError .pipeline

def inExchange {α : Type} (x : Except ExchangeRefusal α) : Except ContractRefusal α :=
  x.mapError fun r => .pipeline (.exchange r)

/-! ## What is read -/

structure DeclaredOption where
  record : ContractRecord
  terms : OptionTerms
  economics : InstrumentEconomics

namespace RunConfig

variable (c : RunConfig)

/-- `_declared`, or a refusal. -/
def find (assetId : String) : Except ContractRefusal ContractRecord :=
  orRefuse (c.declared assetId) (.undeclared assetId)

def declaredOption (assetId : String) (timestamp : Instant) :
    Except ContractRefusal DeclaredOption := do
  let record ← c.find assetId
  match record.terms with
  | some (.option terms) => do
    let economics ← inExchange (economicsFor record.toInstrumentRecord)
    pure ⟨record, terms.effective timestamp, economics⟩
  | _ => throw (.noTerms assetId)

def deliverableMultiplier (d : Deliverable) : Except ContractRefusal Decimal := do
  let underlying ← c.find d.assetId
  let economics ← inExchange (economicsFor underlying.toInstrumentRecord)
  pure economics.multiplier

def wholePart (economics : InstrumentEconomics) (units : Decimal) : Decimal :=
  AlphaLab.wholePart (c.exchangeContext Dict.empty) economics units

end RunConfig

def requireInWindow (o : DeclaredOption) (timestamp : Instant) : Except ContractRefusal Unit := do
  let last ← orRefuse o.record.lastTradeAt (.doesNotExpire o.record.assetId)
  require (o.terms.mayExercise timestamp last = true) (.outsideWindow o.record.assetId timestamp)

namespace PipelineState

variable (s : PipelineState)

def held (assetId : String) : Decimal := (s.portfolio.positions.get? assetId).elim 0 (·.quantity)

def observed (assetId : String) : Except ContractRefusal Decimal :=
  orRefuse (s.marketPrices.get? assetId) (.notObserved assetId)

def requireNoWorkingOrders (assetId : String) : Except ContractRefusal Unit :=
  require (s.orders.workingOrdersFor assetId = [])
    (.working assetId (s.orders.workingOrdersFor assetId).length)

/-- `_package_values`: each deliverable's observed value and multiplier. -/
def packageValues (c : RunConfig) (terms : OptionTerms) :
    Except ContractRefusal (Dict String Decimal × Dict String Decimal) := do
  let values ← terms.deliverables.mapM fun d => do
    let value ← s.observed d.assetId
    pure (d.assetId, value)
  let multipliers ← terms.deliverables.mapM fun d => do
    let multiplier ← c.deliverableMultiplier d
    pure (d.assetId, multiplier)
  pure (Dict.ofList values, Dict.ofList multipliers)

/-- What a contract pays a unit of its price, against the value stated or, for a
    package, the prices observed. -/
def intrinsicOf (c : RunConfig) (o : DeclaredOption) (underlyingValue : Option Decimal) :
    Except ContractRefusal Decimal :=
  match o.terms.packaged, underlyingValue with
  | true, some _ => throw (.valueNotRead o.record.assetId)
  | true, none => do
    let (values, multipliers) ← s.packageValues c o.terms
    pure (o.terms.basketIntrinsic values multipliers o.economics.multiplier)
  | false, none => throw (.valueNotStated o.record.assetId)
  | false, some value => do
    let multiplier ← c.deliverableMultiplier o.terms.deliverable
    pure (o.terms.intrinsic value o.economics.multiplier multiplier)

/-! ## Moving units -/

def withPortfolio (portfolio : PortfolioState) : PipelineState := { s with portfolio := portfolio }

/-- `_lifecycle_fill`: units booked with no commission, at a price that may be zero. -/
def lifecycleFill (c : RunConfig) (assetId : String) (quantity price : Decimal)
    (timestamp : Instant) (currency : String) (economics : InstrumentEconomics)
    (financed : Bool := false) : Except ContractRefusal PipelineState := do
  let settlesAt ← orRefuse (c.settlesAt assetId timestamp)
    (.pipeline (.noSettlementCalendar assetId))
  let portfolio ← inBook (applyFill s.portfolio {
    assetId := assetId
    quantity := quantity
    price := price
    commission := 0
    timestamp := timestamp
    currency := currency
    economics := some economics
    finalSettlement := true
    settlesAt := settlesAt
    financed := financed })
  pure (s.withPortfolio portfolio)

def receiveParts (c : RunConfig) (rates : FxRates) (assetId : String)
    (parts : List (String × Decimal)) (value : Decimal) (currency : String)
    (timestamp : Instant) : Except ContractRefusal PipelineState := do
  let budgetValue ← inPipeline (inBudgetCurrency c.pipeline rates value currency timestamp)
  pure (s.withAllocation
    (s.allocation.applyLifecycle assetId [] (some (assetId, parts, budgetValue))))

/-- A delivered position marked at the market's price for it, where the run has one. -/
def remark (assetId : String) (timestamp : Instant) : Except ContractRefusal PipelineState :=
  match s.marketPrices.get? assetId with
  | none => pure s
  | some _ => do
    let portfolio ← inBook (markChanged s.portfolio s.marketPrices timestamp (some assetId))
    pure (s.withPortfolio portfolio)

def receive (c : RunConfig) (rates : FxRates) (record : ContractRecord)
    (economics : InstrumentEconomics) (units unitPrice : Decimal)
    (parts : List (String × Decimal)) (timestamp : Instant) (financed : Bool) :
    Except ContractRefusal PipelineState := do
  let filled ← s.lifecycleFill c record.assetId units unitPrice timestamp record.currency
    economics financed
  let received ← filled.receiveParts c rates record.assetId parts
    (multiply unitPrice economics.multiplier) record.currency timestamp
  received.remark record.assetId timestamp

def requireDelivers (c : RunConfig) (assetId : String) (units : Decimal) :
    Except ContractRefusal Unit :=
  require (units < 0 → add (s.held assetId) units < 0 → c.allowShorting = true)
    (.wouldShort assetId (s.held assetId))

structure DeliveryTerms where
  underlying : ContractRecord
  economics : InstrumentEconomics
  unitPrice : Decimal
  financed : Bool

/-- Whether units are taken for more than the cash they are paid in: financed where
    their instrument declares margin terms, and refused where not. -/
def financing (underlying : ContractRecord) (economics : InstrumentEconomics)
    (units unitPrice : Decimal) : Except ContractRefusal Bool :=
  if units ≤ 0 ∨ economics.settlement.paysNotional = false then pure false
  else do
    let cost := multiply (multiply units unitPrice) economics.multiplier
    let cash := s.portfolio.cash.balance underlying.currency
    require (cash < cost → underlying.margin.isSome) (.notFinanced underlying.assetId cash)
    pure (decide (cash < cost))

def requireDeliverable (c : RunConfig) (contract : ContractRecord) (d : Deliverable)
    (units price multiplier : Decimal) : Except ContractRefusal DeliveryTerms := do
  let underlying ← c.find d.assetId
  require (underlying.currency = contract.currency) (.twoCurrencies contract.assetId)
  let economics ← inExchange (economicsFor underlying.toInstrumentRecord)
  require (c.wholePart economics |units| = |units|)
    (.fraction contract.assetId (subtract |units| (c.wholePart economics |units|)))
  let unitPrice := divide (multiply price multiplier) (multiply d.units economics.multiplier)
  require (economics.admitsPrice unitPrice) (.priceNotAdmitted d.assetId unitPrice)
  s.requireDelivers c d.assetId units
  let financed ← s.financing underlying economics units unitPrice
  pure ⟨underlying, economics, unitPrice, financed⟩

def deliver (c : RunConfig) (rates : FxRates) (contract : ContractRecord) (d : Deliverable)
    (parts : List (String × Decimal)) (units price multiplier : Decimal) (timestamp : Instant) :
    Except ContractRefusal PipelineState := do
  let terms ← s.requireDeliverable c contract d units price multiplier
  s.receive c rates terms.underlying terms.economics units terms.unitPrice parts timestamp
    terms.financed

end PipelineState

/-! ## A package -/

/-- A deliverable of a package: the whole units the book can hold, and the cash in
    lieu of a fraction. -/
structure FoundComponent where
  record : ContractRecord
  economics : InstrumentEconomics
  whole : Decimal
  lieu : Option Decimal

structure Component where
  record : ContractRecord
  economics : InstrumentEconomics
  units : Decimal
  unitPrice : Decimal

structure PackagePlan where
  components : List Component
  convertBefore : Option (Decimal × String × String) := none
  convertAfter : Option (Decimal × String × String) := none
  rates : FxRates
  financed : Bool := false

def fixedRates (rates : FxRates) (base quote : String) (rate : Decimal) (timestamp : Instant)
    (hrate : 0 < rate) (hne : base ≠ quote) : FxRates :=
  (({ currencyUnits := rates.currencyUnits } : FxRates).withRate
    ⟨base, quote, rate, timestamp, "fixed rate", false, hrate, hne⟩).withRate
    ⟨quote, base, divide 1 rate, timestamp, "fixed rate", false,
      inContext_pos (div_pos one_pos hrate), hne.symm⟩

def conversionRates (terms : OptionTerms) (rates : FxRates) (currency : String)
    (timestamp : Instant) : FxRates :=
  match hrate : terms.considerationRate, terms.considerationCurrency with
  | some rate, some paid =>
    if hne : paid ≠ currency then
      fixedRates rates paid currency rate timestamp (terms.rate_pos rate hrate).1 hne
    else rates
  | _, _ => rates

def apportionedCost (cost : Decimal) (worth : List Decimal) : List Decimal :=
  let total := worth.foldl add 0
  let shares := worth.dropLast.map fun w => divide (multiply cost w) total
  shares ++ [subtract cost (shares.foldl add 0)]

namespace PipelineState

variable (s : PipelineState)

def inLieuOf (terms : OptionTerms) (assetId : String) (economics : InstrumentEconomics)
    (fraction : Decimal) : Except ContractRefusal Decimal := do
  let rule ← orRefuse terms.fractions (.fraction assetId fraction)
  let price ← match rule.price with
    | some price => pure price
    | none => s.observed assetId
  pure (multiply (multiply fraction price) economics.multiplier)

def findComponent (c : RunConfig) (terms : OptionTerms) (currency : String) (contracts : Decimal)
    (d : Deliverable) : Except ContractRefusal FoundComponent := do
  let underlying ← c.find d.assetId
  require (underlying.currency = currency) (.twoCurrencies d.assetId)
  let economics ← inExchange (economicsFor underlying.toInstrumentRecord)
  let units := multiply d.units contracts
  let whole := c.wholePart economics units
  let fraction := subtract units whole
  if fraction = 0 then pure ⟨underlying, economics, whole, none⟩
  else do
    let lieu ← s.inLieuOf terms d.assetId economics fraction
    pure ⟨underlying, economics, whole, some lieu⟩

def componentCosts (cost : Decimal) (contract : String) (found : List FoundComponent) :
    Except ContractRefusal (List Decimal) :=
  match found with
  | [_] => pure [cost]
  | _ => do
    let worth ← found.mapM fun f => do
      let value ← s.observed f.record.assetId
      pure (multiply (multiply f.whole value) f.economics.multiplier)
    require (0 < worth.foldl add 0) (.worthNothing contract)
    pure (apportionedCost cost worth)

def planComponent (c : RunConfig) (sign : Decimal) (f : FoundComponent × Decimal) :
    Except ContractRefusal Component := do
  let unitPrice := divide f.2 (multiply f.1.whole f.1.economics.multiplier)
  require (f.1.economics.admitsPrice unitPrice) (.priceNotAdmitted f.1.record.assetId unitPrice)
  let moved := multiply sign f.1.whole
  s.requireDelivers c f.1.record.assetId moved
  pure ⟨f.1.record, f.1.economics, moved, unitPrice⟩

def considerationIn (currency paid : String) (net : Decimal) (rates : FxRates)
    (timestamp : Instant) : Except ContractRefusal Decimal :=
  if paid = currency then pure net
  else do
    let conversion ← inBook (rates.convert net paid currency (some timestamp)
      (some s.portfolio.account.currencyUnits))
    pure conversion.converted

def packagePlan (c : RunConfig) (o : DeclaredOption) (closing : Decimal) (timestamp : Instant)
    (rates : FxRates) : Except ContractRefusal PackagePlan := do
  let contract := o.record.assetId
  let sign := if 0 < closing then o.terms.direction else -o.terms.direction
  let contracts := |closing|
  let first ← c.find o.terms.deliverable.assetId
  let currency := first.currency
  let found ← o.terms.deliverables.mapM (s.findComponent c o.terms currency contracts)
  let lieu := (found.filterMap (·.lieu)).foldl add 0
  let paid := o.terms.considerationCurrency.getD currency
  let net ← inBook (money s.portfolio.account.currencyUnits
    (subtract (multiply (multiply o.terms.strike o.economics.multiplier) contracts)
      (multiply o.terms.cashPerContract contracts)) paid)
  require (0 < net) (.cashCoversStrike contract)
  let conversion := conversionRates o.terms rates currency timestamp
  let inCurrency ← s.considerationIn currency paid net conversion timestamp
  let cost := subtract inCurrency lieu
  let whole := found.filter fun f => decide (0 < f.whole)
  require (whole ≠ []) (.nothingWhole contract)
  require (0 < cost) (.lieuCoversCost contract)
  let costs ← s.componentCosts cost contract whole
  let components ← (whole.zip costs).mapM (s.planComponent c sign)
  let cash := s.portfolio.cash.balance paid
  require (0 < sign → cash < net → ∀ k ∈ components, k.record.margin.isSome)
    (.notFinanced contract cash)
  pure {
    components := components
    convertBefore := if 0 < sign ∧ paid ≠ currency then some (net, paid, currency) else none
    convertAfter := if ¬ 0 < sign ∧ paid ≠ currency then some (cost, currency, paid) else none
    rates := conversion
    financed := decide (0 < sign ∧ cash < net) }

def bookComponent (c : RunConfig) (rates : FxRates) (parts : List (String × Decimal))
    (financed : Bool) (timestamp : Instant) (s : PipelineState) (k : Component) :
    Except ContractRefusal PipelineState := do
  let total := (parts.map Prod.snd).sum
  let shares := parts.map fun e => (e.1, divide (multiply k.units e.2) total)
  let own ← inExchange (strategyParts shares k.units)
  s.receive c rates k.record k.economics k.units k.unitPrice own timestamp
    (financed && decide (0 < k.units))

def convertFor (conversion : Option (Decimal × String × String)) (rates : FxRates)
    (timestamp : Instant) (financed : Bool) : Except ContractRefusal PipelineState :=
  match conversion with
  | none => pure s
  | some (amount, source, target) => do
    let (portfolio, _) ← inBook
      (convertCash s.portfolio amount source target rates timestamp financed)
    pure (s.withPortfolio portfolio)

def bookPackage (c : RunConfig) (rates : FxRates) (plan : PackagePlan)
    (parts : List (String × Decimal)) (timestamp : Instant) :
    Except ContractRefusal PipelineState := do
  let funded ← s.convertFor plan.convertBefore plan.rates timestamp plan.financed
  let moved ← plan.components.foldlM (bookComponent c rates parts plan.financed timestamp) funded
  moved.convertFor plan.convertAfter plan.rates timestamp false

/-! ## Options -/

def surrender (c : RunConfig) (o : DeclaredOption) (closing price : Decimal)
    (parts : List (String × Decimal)) (timestamp : Instant) :
    Except ContractRefusal PipelineState :=
  (s.withAllocation (s.allocation.applyLifecycle o.record.assetId parts)).lifecycleFill c
    o.record.assetId (-closing) price timestamp o.record.currency o.economics

def requireInitialMargin (c : RunConfig) (o : DeclaredOption) (rates : FxRates)
    (timestamp : Instant) (financed instructed : Bool) : Except ContractRefusal Unit :=
  require (financed = true → instructed = true → c.meetsInitialMargin s rates timestamp = true)
    (.belowInitialMargin o.record.assetId)

def resolveSingle (c : RunConfig) (o : DeclaredOption) (closing : Decimal)
    (parts : List (String × Decimal)) (timestamp : Instant) (rates : FxRates)
    (instructed : Bool) : Except ContractRefusal PipelineState := do
  let perContract := multiply o.terms.direction o.terms.deliverable.units
  let units := multiply perContract closing
  let terms ← s.requireDeliverable c o.record o.terms.deliverable units o.terms.strike
    o.economics.multiplier
  let surrendered ← s.surrender c o closing 0 parts timestamp
  let delivered ← surrendered.deliver c rates o.record o.terms.deliverable
    (parts.map fun e => (e.1, multiply perContract e.2)) units o.terms.strike
    o.economics.multiplier timestamp
  delivered.requireInitialMargin c o rates timestamp terms.financed instructed
  pure delivered

def resolvePackage (c : RunConfig) (o : DeclaredOption) (closing : Decimal)
    (parts : List (String × Decimal)) (timestamp : Instant) (rates : FxRates)
    (instructed : Bool) : Except ContractRefusal PipelineState := do
  let plan ← s.packagePlan c o closing timestamp rates
  let surrendered ← s.surrender c o closing 0 parts timestamp
  let booked ← surrendered.bookPackage c rates plan parts timestamp
  booked.requireInitialMargin c o rates timestamp plan.financed instructed
  pure booked

/-- `_resolve_option`: exercised (`closing` positive) or assigned by the option's
    terms; `parts` is whose contracts they are. -/
def resolveOption (c : RunConfig) (o : DeclaredOption) (closing : Decimal)
    (underlyingValue : Option Decimal) (parts : List (String × Decimal)) (timestamp : Instant)
    (rates : FxRates) (instructed : Bool) : Except ContractRefusal PipelineState :=
  match o.terms.settlement with
  | .cash => do
    let paid ← s.intrinsicOf c o underlyingValue
    s.surrender c o closing paid parts timestamp
  | .physical => do
    require (underlyingValue = none) (.valueNotRead o.record.assetId)
    if o.terms.isSingle then s.resolveSingle c o closing parts timestamp rates instructed
    else s.resolvePackage c o closing parts timestamp rates instructed

/-- Each strategy's part of `closing` units it holds with the others. -/
def partsOf (assetId : String) (closing : Decimal) :
    Except ContractRefusal (List (String × Decimal)) :=
  inExchange (strategyParts (s.allocation.sharesOf assetId) closing)

end PipelineState

/-- `Exercise`, and `Assignment`: whole contracts. -/
structure Exercise where
  assetId : String
  contracts : Decimal
  underlyingValue : Option Decimal := none
  contracts_pos : 0 < contracts
  contracts_whole : roundDown contracts = contracts

structure OptionExpiry where
  assetId : String
  underlyingValue : Option Decimal := none

structure ContractSettlement where
  assetId : String
  price : Decimal

namespace PipelineState

variable (s : PipelineState)

def exercisable (c : RunConfig) (assetId : String) (timestamp : Instant) :
    Except ContractRefusal DeclaredOption := do
  let o ← c.declaredOption assetId timestamp
  requireInWindow o timestamp
  s.requireNoWorkingOrders assetId
  pure o

def exercise (c : RunConfig) (x : Exercise) (timestamp : Instant) (rates : FxRates) :
    Except ContractRefusal PipelineState := do
  let o ← s.exercisable c x.assetId timestamp
  require (x.contracts ≤ s.held x.assetId) (.notHeld x.assetId (s.held x.assetId))
  let parts ← s.partsOf x.assetId x.contracts
  s.resolveOption c o x.contracts x.underlyingValue parts timestamp rates true

def assign (c : RunConfig) (x : Exercise) (timestamp : Instant) (rates : FxRates) :
    Except ContractRefusal PipelineState := do
  let o ← s.exercisable c x.assetId timestamp
  require (x.contracts ≤ -s.held x.assetId) (.notHeld x.assetId (s.held x.assetId))
  let parts ← s.partsOf x.assetId (-x.contracts)
  s.resolveOption c o (-x.contracts) x.underlyingValue parts timestamp rates false

/-- The value a strategy's exercise settles against: what the run has observed. -/
def askedValue (o : DeclaredOption) : Except ContractRefusal (Option Decimal) :=
  if o.terms.settlement = .physical ∨ o.terms.packaged then pure none
  else do
    let value ← s.observed o.terms.deliverable.assetId
    pure (some value)

/-- `_strategy_exercise`: contracts of the asking strategy's own position. -/
def strategyExercise (c : RunConfig) (strategyId : String) (x : Exercise) (timestamp : Instant)
    (rates : FxRates) : Except ContractRefusal PipelineState := do
  let o ← s.exercisable c x.assetId timestamp
  let own := (Dict.getList strategyId (s.allocation.sharesOf x.assetId)).getD 0
  require (x.contracts ≤ own) (.notHeld x.assetId own)
  let value ← s.askedValue o
  s.resolveOption c o x.contracts value [(strategyId, x.contracts)] timestamp rates true

def withPrice (assetId : String) (price : Decimal) : PipelineState :=
  { s with marketPrices := s.marketPrices.set assetId price }

def expireOption (c : RunConfig) (x : OptionExpiry) (timestamp : Instant) (rates : FxRates) :
    Except ContractRefusal PipelineState := do
  let o ← c.declaredOption x.assetId timestamp
  require (o.terms.expiresAt ≤ timestamp) (.stillTrades x.assetId timestamp)
  let cancelled ← inPipeline (s.cancelWorking c.pipeline x.assetId timestamp)
  let intrinsic ← s.intrinsicOf c o x.underlyingValue
  let current := cancelled.withPrice x.assetId intrinsic
  let held := current.held x.assetId
  if held = 0 then pure current
  else do
    let parts ← current.partsOf x.assetId held
    if o.terms.automaticExercise.any (·.exercises intrinsic) then
      let value := if o.terms.settlement = .cash ∧ o.terms.packaged = false then x.underlyingValue
        else none
      current.resolveOption c o held value parts timestamp rates false
    else current.surrender c o held 0 parts timestamp

end PipelineState

/-- Whether a contract is closed at a final price: a future, an option, or a bond
    redeemed. -/
def settledAtExpiry (assetType : AssetType) (economics : InstrumentEconomics) : Bool :=
  decide (economics.settlement = .futuresVariation ∨ economics.settlement = .optionPremium ∨
    assetType = .bond)

def ContractRecord.settledDelivery (record : ContractRecord) : Option Deliverable :=
  match record.terms with
  | some (.future terms) => if terms.settlement = .physical then terms.deliverable else none
  | _ => none

def RunConfig.settleable (c : RunConfig) (x : ContractSettlement) (timestamp : Instant) :
    Except ContractRefusal (ContractRecord × InstrumentEconomics) := do
  let record ← c.find x.assetId
  let last ← orRefuse record.lastTradeAt (.doesNotExpire x.assetId)
  require (last ≤ timestamp) (.stillTrades x.assetId timestamp)
  let economics ← inExchange (economicsFor record.toInstrumentRecord)
  require (settledAtExpiry record.assetType economics = true) (.notSettledAtExpiry x.assetId)
  require (0 ≤ x.price ∨ economics.allowsNegativePrices = true)
    (.priceNotAdmitted x.assetId x.price)
  match record.terms with
  | some (.option _) => throw (.termsDeclared x.assetId)
  | _ => pure (record, economics)

namespace PipelineState

variable (s : PipelineState)

def settleDelivery (c : RunConfig) (record : ContractRecord) (d : Deliverable)
    (shares : List (String × Decimal)) (held : Decimal) (economics : InstrumentEconomics)
    (price : Decimal) (timestamp : Instant) (rates : FxRates) :
    Except ContractRefusal PipelineState :=
  s.deliver c rates record d (shares.map fun e => (e.1, multiply d.units e.2))
    (multiply d.units held) price economics.multiplier timestamp

def closeContract (c : RunConfig) (record : ContractRecord) (economics : InstrumentEconomics)
    (x : ContractSettlement) (position : Position) (timestamp : Instant) (rates : FxRates) :
    Except ContractRefusal PipelineState := do
  let shares := s.allocation.sharesOf x.assetId
  let settled := (s.withAllocation (s.allocation.settleAsset x.assetId).1).withPrice x.assetId
    x.price
  match record.settledDelivery with
  | none =>
    settled.lifecycleFill c x.assetId (-position.quantity) x.price timestamp position.currency
      economics
  | some d => do
    let _ ← s.requireDeliverable c record d (multiply d.units position.quantity) x.price
      economics.multiplier
    let closed ← settled.lifecycleFill c x.assetId (-position.quantity) x.price timestamp
      position.currency economics
    closed.settleDelivery c record d shares position.quantity economics x.price timestamp rates

def settleContract (c : RunConfig) (x : ContractSettlement) (timestamp : Instant)
    (rates : FxRates) : Except ContractRefusal PipelineState := do
  let (record, economics) ← c.settleable x timestamp
  let current ← inPipeline (s.cancelWorking c.pipeline x.assetId timestamp)
  match (current.portfolio.positions.get? x.assetId).filter (·.quantity ≠ 0) with
  | none =>
    pure ((current.withAllocation (current.allocation.settleAsset x.assetId).1).withPrice
      x.assetId x.price)
  | some position => current.closeContract c record economics x position timestamp rates

end PipelineState

end AlphaLab
