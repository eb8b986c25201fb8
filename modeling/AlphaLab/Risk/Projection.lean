/-
  The book before and after one order (`risk/limits.py`, `risk/state.py`,
  `risk/projection.py`).

  * `RiskLimits` and `RiskState` are what the gate reads of its limits and of the book,
    in the account's base currency;
  * `project` counts the working orders and adds the order;
  * `growth` is the part of an order that grows a position, `grows` whether there is one.
-/
import AlphaLab.Core.Orders

namespace AlphaLab

/-! ## Limits -/

structure PositionLimit where
  maxQuantity : Decimal
  maxNotional : Decimal

structure OrderSizeLimit where
  maxQuantity : Decimal
  maxNotional : Decimal

structure ExposureLimit where
  maxGrossExposure : Decimal
  maxNetExposure : Decimal

/-- `ClassificationLimit`: the most one bucket of a dimension may hold. -/
structure ClassificationLimit where
  dimension : String
  maxGross : Option Decimal
  maxShare : Option Decimal
  label : Option String
  refuseUnclassified : Bool

/-- `RiskLimits`; a limit of one figure is that figure. -/
structure RiskLimits where
  orderSize : OrderSizeLimit
  position : PositionLimit
  exposure : ExposureLimit
  maxLeverage : Decimal
  maxMarginUtilization : Decimal
  maxDailyLoss : Option Decimal
  maxDrawdownPct : Decimal
  classification : List ClassificationLimit

/-- `bucket_limits`: those that name the label, else the dimension's unlabelled ones. -/
def RiskLimits.bucketLimits (limits : RiskLimits) (dimension : String) (label : Option String) :
    List ClassificationLimit :=
  let binding (label : Option String) := limits.classification.filter fun limit =>
    limit.dimension = dimension && limit.label = label
  if binding label ≠ [] ∨ label = none then binding label else binding none

structure ExposureStatus where
  grossExposure : Decimal
  netExposure : Decimal
  assetExposure : Dict String Decimal

structure RiskState where
  activeLimits : RiskLimits
  exposure : ExposureStatus
  marginUsed : Decimal
  buyingPower : Decimal
  peakNav : Decimal
  currentNav : Decimal
  dailyLoss : Decimal

def RiskState.currentDrawdownPct (s : RiskState) : Decimal :=
  if s.peakNav ≤ 0 then 0 else max 0 (divide (subtract s.peakNav s.currentNav) s.peakNav)

/-- `WorkingExposure`: what an asset's working orders commit before they fill. -/
structure WorkingExposure where
  quantity : Decimal
  price : Decimal
  position : Decimal
  charge : Option Decimal

structure BucketExposure where
  dimension : String
  label : Option String
  committedGross : Decimal
  projectedGross : Decimal

/-! ## The projection -/

structure RiskProjection where
  assetId : String
  orderQuantity : Decimal
  price : Decimal
  committedPosition : Decimal
  projectedPosition : Decimal
  committedGross : Decimal
  projectedGross : Decimal
  committedNet : Decimal
  projectedNet : Decimal
  increasingNotional : Decimal
  availableBuyingPower : Decimal
  nav : Decimal
  marginRequirement : Option Decimal
  marginEquity : Option Decimal

def reverses (before after : Decimal) : Prop := (after < 0 ∧ 0 < before) ∨ (before < 0 ∧ 0 < after)

instance (before after : Decimal) : Decidable (reverses before after) :=
  inferInstanceAs (Decidable (_ ∨ _))

def grows (before after : Decimal) : Prop := |before| < |after| ∨ reverses before after

instance (before after : Decimal) : Decidable (grows before after) :=
  inferInstanceAs (Decidable (_ ∨ _))

/-- `_growth`: the growth in magnitude, or the whole reversed leg. -/
def growth (before after : Decimal) : Decimal :=
  if reverses before after then |after| else max 0 (subtract |after| |before|)

def RiskProjection.increasesExposure (p : RiskProjection) : Prop :=
  grows p.committedPosition p.projectedPosition

instance (p : RiskProjection) : Decidable p.increasesExposure :=
  inferInstanceAs (Decidable (grows _ _))

def RiskProjection.projectedPositionValue (p : RiskProjection) : Decimal :=
  multiply |p.projectedPosition| p.price

/-- What one asset's working orders commit: gross and net exposure, and buying power. -/
structure Commitment where
  gross : Decimal
  net : Decimal
  growth : Decimal

/-- The value the book carries for an asset, with what its working orders commit. -/
def committedValue (filledValue : Decimal) (pending : Option WorkingExposure) : Decimal :=
  pending.elim filledValue fun w => add filledValue (multiply w.quantity w.price)

def Commitment.counting (values : Dict String Decimal) (c : Commitment)
    (pending : String × WorkingExposure) : Commitment :=
  let w := pending.2
  let filledValue := (values.get? pending.1).getD 0
  let pendingValue := multiply w.quantity w.price
  { gross := add c.gross (subtract |add filledValue pendingValue| |filledValue|)
    net := add c.net pendingValue
    growth := add c.growth (multiply (AlphaLab.growth w.position (add w.position w.quantity))
      (w.charge.getD w.price)) }

def project (s : RiskState) (request : OrderRequest) (position price : Decimal)
    (working : Dict String WorkingExposure) (charge : Option Decimal)
    (margin : Option (Decimal × Decimal)) : RiskProjection :=
  let signed := request.side.signed request.quantity
  let committed := working.entries.foldl (Commitment.counting s.exposure.assetExposure)
    ⟨s.exposure.grossExposure, s.exposure.netExposure, 0⟩
  let pendingHere := working.get? request.assetId
  let committedPosition := pendingHere.elim position fun w => add position w.quantity
  let projectedPosition := add committedPosition signed
  let value := committedValue ((s.exposure.assetExposure.get? request.assetId).getD 0) pendingHere
  let orderValue := multiply signed price
  { assetId := request.assetId
    orderQuantity := signed
    price := price
    committedPosition := committedPosition
    projectedPosition := projectedPosition
    committedGross := committed.gross
    projectedGross := add (subtract committed.gross |value|) |add value orderValue|
    committedNet := committed.net
    projectedNet := add committed.net orderValue
    increasingNotional := multiply (growth committedPosition projectedPosition)
      (charge.getD price)
    availableBuyingPower := subtract s.buyingPower committed.growth
    nav := s.currentNav
    marginRequirement := margin.map Prod.fst
    marginEquity := margin.map Prod.snd }

end AlphaLab
