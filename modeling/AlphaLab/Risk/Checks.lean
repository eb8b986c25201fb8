/-
  The risk gate (`risk/checks.py`, `risk/engine.py`, `risk/validation.py`).

  Each check answers with a violation or with nothing; `evaluate` judges a request on its
  projection and approves it when no check answers.  The texts of the violations are not
  kept, and of the gate's own state its logs are not.
-/
import Mathlib.Data.List.ReduceOption
import AlphaLab.Lib.Runs
import AlphaLab.Risk.Projection

namespace AlphaLab

open Fallible

inductive RiskRule where
  | orderSizeQuantity
  | orderSizeNotional
  | positionLimit
  | positionNotionalLimit
  | marginLimit
  | grossExposureLimit
  | netExposureLimit
  | drawdownLimit
  | buyingPowerLimit
  | dailyLossLimit
  | leverageLimit
  | classificationUnclassified
  | classificationLimit
  | classificationShareLimit
deriving DecidableEq

structure RiskViolation where
  rule : RiskRule
  currentValue : Decimal
  allowedValue : Decimal
deriving DecidableEq

/-! ## Checks -/

def checkOrderSize (request : OrderRequest) (s : RiskState) (p : RiskProjection) :
    Option RiskViolation :=
  let limit := s.activeLimits.orderSize
  if limit.maxQuantity < request.quantity then
    some ⟨.orderSizeQuantity, request.quantity, limit.maxQuantity⟩
  else if limit.maxNotional < multiply request.quantity p.price then
    some ⟨.orderSizeNotional, multiply request.quantity p.price, limit.maxNotional⟩
  else none

/-- `check_position_limit`: the projected position, in units and then in value. -/
def checkPositionLimit (s : RiskState) (p : RiskProjection) : Option RiskViolation :=
  let limit := s.activeLimits.position
  if ¬ p.increasesExposure then none
  else if limit.maxQuantity < |p.projectedPosition| then
    some ⟨.positionLimit, |p.projectedPosition|, limit.maxQuantity⟩
  else if limit.maxNotional < p.projectedPositionValue then
    some ⟨.positionNotionalLimit, p.projectedPositionValue, limit.maxNotional⟩
  else none

/-- `check_margin`: the declared model's requirement over its equity, or gross exposure over
    net asset value. -/
def checkMargin (s : RiskState) (p : RiskProjection) : Option RiskViolation :=
  let most := s.activeLimits.maxMarginUtilization
  if p.projectedGross ≤ p.committedGross then none
  else
    match p.marginRequirement, p.marginEquity with
    | some requirement, some equity =>
      if equity ≤ 0 then some ⟨.marginLimit, requirement, 0⟩
      else if most < divide requirement equity then
        some ⟨.marginLimit, divide requirement equity, most⟩
      else none
    | _, _ =>
      if p.nav ≤ 0 then some ⟨.marginLimit, p.projectedGross, 0⟩
      else if most < divide p.projectedGross p.nav then
        some ⟨.marginLimit, divide p.projectedGross p.nav, most⟩
      else none

def checkExposure (s : RiskState) (p : RiskProjection) : Option RiskViolation :=
  let limit := s.activeLimits.exposure
  if p.projectedGross ≤ p.committedGross then none
  else if limit.maxGrossExposure < p.projectedGross then
    some ⟨.grossExposureLimit, p.projectedGross, limit.maxGrossExposure⟩
  else none

def checkNetExposure (s : RiskState) (p : RiskProjection) : Option RiskViolation :=
  let limit := s.activeLimits.exposure
  if |p.projectedNet| ≤ |p.committedNet| then none
  else if limit.maxNetExposure < |p.projectedNet| then
    some ⟨.netExposureLimit, |p.projectedNet|, limit.maxNetExposure⟩
  else none

def drawdownBreach (s : RiskState) : Option RiskViolation :=
  if s.activeLimits.maxDrawdownPct < s.currentDrawdownPct then
    some ⟨.drawdownLimit, s.currentDrawdownPct, s.activeLimits.maxDrawdownPct⟩
  else none

def dailyLossBreach (s : RiskState) : Option RiskViolation :=
  match s.activeLimits.maxDailyLoss with
  | none => none
  | some most => if s.dailyLoss ≤ most then none else some ⟨.dailyLossLimit, s.dailyLoss, most⟩

def checkDrawdown (s : RiskState) (p : RiskProjection) : Option RiskViolation :=
  if p.increasesExposure then drawdownBreach s else none

def checkDailyLoss (s : RiskState) (p : RiskProjection) : Option RiskViolation :=
  if p.increasesExposure then dailyLossBreach s else none

/-- `check_buying_power`: charged for the part of the order that grows a position. -/
def checkBuyingPower (p : RiskProjection) : Option RiskViolation :=
  if p.increasingNotional ≤ 0 then none
  else if p.availableBuyingPower < p.increasingNotional then
    some ⟨.buyingPowerLimit, p.increasingNotional, p.availableBuyingPower⟩
  else none

def checkLeverage (s : RiskState) (p : RiskProjection) : Option RiskViolation :=
  let most := s.activeLimits.maxLeverage
  if p.projectedGross ≤ p.committedGross then none
  else if p.nav ≤ 0 then some ⟨.leverageLimit, p.projectedGross, 0⟩
  else if most < divide p.projectedGross p.nav then
    some ⟨.leverageLimit, divide p.projectedGross p.nav, most⟩
  else none

def checkBucketLimit (p : RiskProjection) (bucket : BucketExposure)
    (limit : ClassificationLimit) : Option RiskViolation :=
  let gross := bucket.projectedGross
  match limit.maxGross.filter (· < gross) with
  | some most => some ⟨.classificationLimit, gross, most⟩
  | none =>
    limit.maxShare.bind fun most =>
      if p.nav ≤ 0 then some ⟨.classificationShareLimit, gross, 0⟩
      else if most < divide gross p.nav then
        some ⟨.classificationShareLimit, divide gross p.nav, most⟩
      else none

def checkBucket (s : RiskState) (p : RiskProjection) (bucket : BucketExposure) :
    Option RiskViolation :=
  let binding := s.activeLimits.bucketLimits bucket.dimension bucket.label
  if bucket.label = none then
    if p.increasesExposure ∧ binding.any (·.refuseUnclassified) then
      some ⟨.classificationUnclassified, p.projectedPositionValue, 0⟩
    else none
  else if bucket.projectedGross ≤ bucket.committedGross then none
  else binding.findSome? (checkBucketLimit p bucket)

def checkClassification (s : RiskState) (p : RiskProjection) (buckets : List BucketExposure) :
    Option RiskViolation :=
  buckets.findSome? (checkBucket s p)

/-! ## The decision -/

/-- `RiskDecision`: what the gate answers. -/
structure RiskDecision where
  orderId : String
  violations : List RiskViolation
  requiredMargin : Decimal
  remainingBuyingPower : Decimal
  breaches : List RiskViolation

/-- `approved`: no limit would be breached. -/
def RiskDecision.approved (d : RiskDecision) : Bool := d.violations.isEmpty

/-- What a judgement is made on beside the gate's state and the request. -/
structure RiskContext where
  position : Decimal
  price : Decimal
  working : Dict String WorkingExposure
  buckets : List BucketExposure
  charge : Option Decimal
  margin : Option (Decimal × Decimal)

/-- `validate_order_request` raises. -/
inductive RiskRefusal where
  | quantityNotPositive
  | emptyAssetId

def RiskContext.projection (x : RiskContext) (s : RiskState) (request : OrderRequest) :
    RiskProjection :=
  project s request x.position x.price x.working x.charge x.margin

def riskViolations (s : RiskState) (request : OrderRequest) (x : RiskContext) :
    List RiskViolation :=
  let p := x.projection s request
  [checkOrderSize request s p, checkPositionLimit s p, checkMargin s p, checkExposure s p,
    checkNetExposure s p, checkDrawdown s p, checkBuyingPower p, checkDailyLoss s p,
    checkLeverage s p, checkClassification s p x.buckets].reduceOption

def evaluate (s : RiskState) (request : OrderRequest) (x : RiskContext) :
    Except RiskRefusal RiskDecision := do
  require (0 < request.quantity) .quantityNotPositive
  require (request.assetId ≠ "") .emptyAssetId
  let p := x.projection s request
  let violations := riskViolations s request x
  pure {
    orderId := request.orderId
    violations := violations
    requiredMargin := if violations = [] then p.increasingNotional else s.marginUsed
    remainingBuyingPower :=
      if violations = [] then subtract p.availableBuyingPower p.increasingNotional
      else s.buyingPower
    breaches := [drawdownBreach s, dailyLossBreach s].reduceOption }

theorem mem_riskViolations {s : RiskState} {request : OrderRequest} {x : RiskContext}
    {v : RiskViolation} :
    v ∈ riskViolations s request x ↔
      let p := x.projection s request
      checkOrderSize request s p = some v ∨ checkPositionLimit s p = some v ∨
        checkMargin s p = some v ∨ checkExposure s p = some v ∨ checkNetExposure s p = some v ∨
        checkDrawdown s p = some v ∨ checkBuyingPower p = some v ∨ checkDailyLoss s p = some v ∨
        checkLeverage s p = some v ∨ checkClassification s p x.buckets = some v := by
  simp only [riskViolations, List.reduceOption_mem_iff, List.mem_cons, List.not_mem_nil, or_false]
  simp only [@eq_comm _ (some v)]

end AlphaLab
