/-
  Allocation of a batch of intents (`strategy/events.py`,
  `allocation/constraints.py`, `allocation/netting.py` and
  `AllocationEngine.allocate` of `allocation/engine.py`).

  * an intent is screened, sized (`sizeIntent`, `targetDelta`), and admitted by
    its strategy's ceiling (`withinCeilings`);
  * what is admitted is netted by asset and terms (`netByTerms`), and each net
    becomes an order unless a constraint refuses it (`emitOrder`).
-/
import AlphaLab.Allocation.Ledger
import AlphaLab.Portfolio.Position

namespace AlphaLab

/-! ## Intents -/

inductive IntentKind where
  | delta | targetQuantity | targetWeight | exercise | cancel | elect | amend
deriving DecidableEq

/-- `Intent`: what a strategy asks for. -/
structure Intent where
  strategyId : String
  instrument : String
  target : Decimal
  strength : Decimal := 1
  horizon : String := "default"
  terms : OrderTerms := marketTerms
  correlationId : String := ""
  timestamp : Instant := 0
  metadata : Dict String String := Dict.empty
  kind : IntentKind := .delta
deriving DecidableEq

namespace Intent

/-- `validate_intent`, of the kinds that are orders. -/
def isValid (i : Intent) : Bool :=
  i.strategyId ≠ "" && i.instrument ≠ "" && 0 ≤ i.strength && i.strength ≤ 1 && 0 ≤ i.timestamp

def asksForOrder (i : Intent) : Bool :=
  match i.kind with
  | .delta | .targetQuantity | .targetWeight => true
  | .exercise | .cancel | .elect | .amend => false

def isTarget (i : Intent) : Bool :=
  match i.kind with
  | .targetQuantity | .targetWeight => true
  | .delta | .exercise | .cancel | .elect | .amend => false

/-- `_intent_key`: all an intent compares on. -/
def key (i : Intent) : Intent := { i with metadata := i.metadata.sorted }

end Intent

/-- `AllocationConstraints`, as far as allocation reads it. -/
structure AllocationConstraints where
  allowShorting : Bool := true
  enforceIntegerQuantities : Bool := false

/-- What `allocate` is called with, beside the state. -/
structure AllocationInput where
  intents : List Intent
  marketPrices : Dict String Decimal
  sizingModel : Intent → CapitalBudget → Decimal → Option Decimal
  constraints : AllocationConstraints
  timestamp : Instant
  budgetPrices : Dict String Decimal := Dict.empty
  /-- Each asset's committed position; `none` if they are unknown. -/
  positions : Option (Dict String Decimal) := none
  working : Dict (String × String) Decimal := Dict.empty
  lots : Dict String LotSpecification := Dict.empty
  minimumNotionals : Dict String Decimal := Dict.empty
  multipliers : Dict String Decimal := Dict.empty
  /-- The identifier of the batch's `n`-th order. -/
  newId : ℕ → String

/-- `_per_unit`: each multiplied asset's price scaled to one unit's value. -/
def perUnit (prices multipliers : Dict String Decimal) : Dict String Decimal :=
  multipliers.entries.foldl (fun scaled e =>
    (scaled.get? e.1).elim scaled fun price => scaled.set e.1 (multiply price e.2)) prices

namespace AllocationInput

variable (b : AllocationInput)

def unitPrices : Dict String Decimal := perUnit b.marketPrices b.multipliers

def unitBudgetPrices : Dict String Decimal := perUnit b.budgetPrices b.multipliers

def unitValue (assetId : String) (default : Decimal) : Decimal :=
  (b.unitBudgetPrices.get? assetId).getD ((b.unitPrices.get? assetId).getD default)

def workingOf (strategyId assetId : String) : Decimal :=
  (b.working.get? (strategyId, assetId)).getD 0

end AllocationInput

/-! ## Sizing -/

/-- Decimals of `QUANTITY_QUANTUM`. -/
def quantityPlaces : ℕ := 6

/-- `x` at `n` decimals, towards zero. -/
def truncateTo (n : ℕ) (x : Decimal) : Decimal := roundDown (x / quantum n) * quantum n

def roundDownToLot (quantity : Decimal) (lot : LotSpecification) : Decimal :=
  let rounded := roundDown (|quantity| / lot.lotSize) * lot.lotSize
  if rounded < lot.minimumQuantity then 0
  else if quantity < 0 then -rounded else rounded

/-- `admits`: a whole number of lots, at or above the minimum. -/
def LotSpecification.admits (lot : LotSpecification) (quantity : Decimal) : Bool :=
  lot.minimumQuantity ≤ |quantity| && Rounding.OnGrid lot.lotSize |quantity|

def targetOf (s : AllocationState) (b : AllocationInput) (i : Intent) (price : Decimal) :
    Decimal :=
  let scale := multiply i.target i.strength
  if i.kind = .targetQuantity then scale
  else divide (multiply (s.budget.availableStrategyCapital i.strategyId) scale)
    ((b.unitBudgetPrices.get? i.instrument).getD price)

/-- A difference brought onto what can be traded, towards zero. -/
def tradable (wholeUnits : Bool) (lot : Option LotSpecification) (difference : Decimal) :
    Decimal :=
  let delta := truncateTo quantityPlaces difference
  let delta := if wholeUnits then roundDown delta else delta
  lot.elim delta (roundDownToLot delta)

/-- `_target_delta`: the quantity that takes a strategy from what it has to its
    target, or `none` where it is refused. -/
def targetDelta (s : AllocationState) (b : AllocationInput) (i : Intent) : Option Decimal :=
  match s.strategyPositions, b.unitPrices.get? i.instrument with
  | none, _ | _, none => none
  | some _, some price =>
    if i.kind = .targetWeight ∧ price ≤ 0 then none
    else
      let committed := s.positionOf i.strategyId i.instrument +
        b.workingOf i.strategyId i.instrument
      let delta := tradable b.constraints.enforceIntegerQuantities (b.lots.get? i.instrument)
        (subtract (targetOf s b i price) committed)
      if delta ≠ 0 ∧ (b.minimumNotionals.get? i.instrument).any
          (multiply |delta| |price| < ·) then none
      else some delta

/-- One sized intent: who asks for how much of what, and how. -/
structure SizedDelta where
  strategyId : String
  assetId : String
  terms : OrderTerms
  quantity : Decimal

/-- The quantity an intent is sized to, or `none` where it is refused. -/
def sizeIntent (s : AllocationState) (b : AllocationInput) (i : Intent) : Option Decimal :=
  if i.isTarget then targetDelta s b i
  else b.sizingModel i s.budget ((b.unitPrices.get? i.instrument).getD 0)

/-- `FixedQuantitySizing.calculate` -/
def fixedQuantitySizing (i : Intent) (_ : CapitalBudget) (_ : Decimal) : Option Decimal :=
  some (quantize quantityPlaces (inSplit (i.target * i.strength)))

/-- The intents that ask for an order, each once, and the refusals of the others. -/
def screenIntents (timestamp : Instant) (intents : List Intent) :
    List Intent × List AllocationEvent :=
  intents.foldl (fun (kept, events) i =>
    if ¬ i.isValid then (kept, events ++ [.rejected timestamp .invalid])
    else if ¬ i.asksForOrder then (kept, events ++ [.rejected timestamp .notAnOrder])
    else if i.key ∈ kept.map Intent.key then (kept, events ++ [.rejected timestamp .statedTwice])
    else (kept ++ [i], events)) ([], [])

/-- The deltas a batch is sized to; a target that is held already asks for none. -/
def sizeIntents (s : AllocationState) (b : AllocationInput) (intents : List Intent) :
    List SizedDelta × List AllocationEvent :=
  intents.foldl (fun (sized, events) i =>
    match sizeIntent s b i with
    | none => (sized, events ++ [.rejected b.timestamp .unsized])
    | some quantity =>
      if i.isTarget ∧ quantity = 0 then (sized, events)
      else (sized ++ [⟨i.strategyId, i.instrument, i.terms, quantity⟩], events)) ([], [])

/-! ## Ceilings -/

abbrev CommitmentKey := String × String × OrderTerms

/-- The batch as `_within_ceilings` goes through it. -/
structure CeilingFold where
  admitted : List SizedDelta := []
  commitments : Dict CommitmentKey Decimal := Dict.empty
  projected : Dict (String × String) Decimal := Dict.empty
  running : Dict String Decimal := Dict.empty
  events : List AllocationEvent := []

/-- What the strategy has in the asset when a delta is judged: filled, working and
    admitted before. -/
def CeilingFold.heldBefore (f : CeilingFold) (s : AllocationState) (b : AllocationInput)
    (strategyId assetId : String) : Decimal :=
  (f.projected.get? (strategyId, assetId)).getD
    (s.positionOf strategyId assetId + b.workingOf strategyId assetId)

def CeilingFold.commitmentOf (f : CeilingFold) (s : AllocationState) (b : AllocationInput)
    (d : SizedDelta) : Decimal :=
  multiply (addingExposure (f.heldBefore s b d.strategyId d.assetId) d.quantity)
    |b.unitValue d.assetId 0|

def CeilingFold.committedBefore (f : CeilingFold) (s : AllocationState) (strategyId : String) :
    Decimal :=
  (s.capitalOf strategyId).committed + (f.running.get? strategyId).getD 0

def CeilingFold.accept (f : CeilingFold) (s : AllocationState) (b : AllocationInput)
    (d : SizedDelta) : CeilingFold :=
  let commitment := f.commitmentOf s b d
  let key := (d.strategyId, d.assetId, d.terms)
  { f with
    admitted := f.admitted ++ [d]
    commitments := f.commitments.set key ((f.commitments.get? key).getD 0 + commitment)
    projected := f.projected.set (d.strategyId, d.assetId)
      (f.heldBefore s b d.strategyId d.assetId + d.quantity)
    running :=
      if 0 < commitment then
        f.running.set d.strategyId ((f.running.get? d.strategyId).getD 0 + commitment)
      else f.running }

def CeilingFold.refusal (f : CeilingFold) (s : AllocationState) (b : AllocationInput)
    (ceiling : Decimal) (d : SizedDelta) : Option AllocationRejection :=
  let commitment := f.commitmentOf s b d
  let committed := f.committedBefore s d.strategyId
  if commitment ≤ 0 then none
  else if s.strategyPositions = none then some (.ceilingUnrecorded d.strategyId)
  else if ceiling < committed + commitment then
    some (.ceiling d.strategyId d.assetId committed ceiling d.quantity commitment)
  else none

def CeilingFold.judge (s : AllocationState) (b : AllocationInput) (f : CeilingFold)
    (d : SizedDelta) : CeilingFold :=
  match s.budget.strategyCeiling d.strategyId with
  | none => { f with admitted := f.admitted ++ [d] }
  | some ceiling =>
    match f.refusal s b ceiling d with
    | some reason => { f with events := f.events ++ [.rejected b.timestamp reason] }
    | none => f.accept s b d

/-- `_within_ceilings`: the deltas admitted, what each commits, and the refusals. -/
def withinCeilings (s : AllocationState) (b : AllocationInput) (sized : List SizedDelta) :
    CeilingFold :=
  if s.budget.enforceStrategyBudgets then sized.foldl (CeilingFold.judge s b) {}
  else { admitted := sized }

/-- `net_by_terms`: net quantities per asset and terms, in the order they appear. -/
def netByTerms (sized : List SizedDelta) : Dict (String × OrderTerms) Decimal :=
  sized.foldl (fun net d =>
    net.set (d.assetId, d.terms) ((net.get? (d.assetId, d.terms)).getD 0 + d.quantity)) Dict.empty

/-- `contributions_by_terms`: who asked for each order, and for how much. -/
def contributionsByTerms (sized : List SizedDelta) (key : String × OrderTerms) :
    List StrategyContribution :=
  contributionsFrom
    ((sized.filter fun d => (d.assetId, d.terms) = key).map fun d => (d.strategyId, d.quantity))

/-! ## Orders -/

/-- An order of the batch, what it commits, and whether it reduces the account's
    committed position. -/
structure EmittedOrder where
  request : OrderRequest
  commitment : Decimal
  reduces : Bool

structure EmitFold where
  emitted : List EmittedOrder := []
  /-- Each asset's committed position with the orders emitted before. -/
  projected : Option (Dict String Decimal)
  events : List AllocationEvent := []

def netRefusal (b : AllocationInput) (held : Option Decimal) (assetId : String)
    (quantity : Decimal) : Option AllocationRejection :=
  if (b.lots.get? assetId).any fun lot => ¬ lot.admits quantity then
    some (.notWholeLots assetId quantity)
  else if ¬ b.constraints.allowShorting ∧
      held.elim (decide (quantity < 0)) (fun held => held + quantity < 0) then
    some (.longOnly assetId quantity)
  else none

/-- A net rounded to whole units, if the run trades them: the nearest, ties to even. -/
def wholeNet (b : AllocationInput) (quantity : Decimal) : Decimal :=
  if b.constraints.enforceIntegerQuantities then (Rounding.roundHalfEven quantity : ℚ)
  else quantity

/-- How much of an order adds to the account's committed position. -/
def accountAdding (held : Option Decimal) (quantity : Decimal) : Decimal :=
  held.elim |quantity| fun held => max 0 (|held + quantity| - |held|)

def orderOf (b : AllocationInput) (sized : List SizedDelta) (index : ℕ)
    (key : String × OrderTerms) (quantity : Decimal) : OrderRequest where
  orderId := b.newId index
  -- a netted order can represent several strategies, and has no single owner
  strategyId := ""
  assetId := key.1
  side := if 0 < quantity then .buy else .sell
  quantity := |quantity|
  price := (b.marketPrices.get? key.1).getD 0
  timestamp := b.timestamp
  contributions := contributionsByTerms sized key
  terms := key.2

def EmitFold.emitOrder (b : AllocationInput) (sized : List SizedDelta) (f : EmitFold)
    (net : (String × OrderTerms) × Decimal) : EmitFold :=
  let quantity := wholeNet b net.2
  let held := f.projected.map fun positions => (positions.get? net.1.1).getD 0
  if quantity = 0 then f
  else match netRefusal b held net.1.1 quantity with
    | some reason => { f with events := f.events ++ [.rejected b.timestamp reason] }
    | none =>
      let request := orderOf b sized f.emitted.length net.1 quantity
      { emitted := f.emitted ++ [{
          request := request
          commitment := multiply (accountAdding held quantity) |b.unitValue net.1.1 request.price|
          reduces := held.any fun held => |held + quantity| < |held| }]
        projected := f.projected.map fun positions =>
          positions.set net.1.1 (held.getD 0 + quantity)
        events := f.events ++ [.netted b.timestamp net.1.1 |quantity| request.side] }

def emitOrders (b : AllocationInput) (sized : List SizedDelta) : EmitFold :=
  let f := (netByTerms sized).entries.foldl (EmitFold.emitOrder b sized)
    { projected := b.positions }
  { f with emitted := f.emitted.filter (·.reduces) ++ f.emitted.filter fun e => ¬ e.reduces }

def totalCommitment (emitted : List EmittedOrder) : Decimal :=
  (emitted.map (·.commitment)).foldl add 0

def reserveCapital (commitments : Dict CommitmentKey Decimal) (request : OrderRequest)
    (s : AllocationState) (c : StrategyContribution) : AllocationState :=
  match commitments.get? (c.strategyId, request.assetId, request.terms) with
  | none => s
  | some amount => s.setCapital c.strategyId ((s.capitalOf c.strategyId).reserve
      request.orderId amount)

def reserveOrder (commitments : Dict CommitmentKey Decimal) (s : AllocationState)
    (e : EmittedOrder) : AllocationState :=
  let entered := { s with
    reservations := s.reservations.set e.request.orderId e.commitment
    contributions := s.contributions.set e.request.orderId e.request.contributions }
  e.request.contributions.foldl (reserveCapital commitments e.request) entered

/-- Whether a batch fits beside what is committed already. -/
def fitsBudget (s : AllocationState) (total : Decimal) : Prop :=
  add s.notionalAllocated total ≤ s.budget.availableGlobalCapital ∧
    add s.notionalAllocated total ≤ s.budget.maximumExposure

instance (s : AllocationState) (total : Decimal) : Decidable (fitsBudget s total) :=
  inferInstanceAs (Decidable (_ ∧ _))

/-- `AllocationEngine.allocate`: the next state, and the orders emitted. -/
def allocate (s : AllocationState) (b : AllocationInput) :
    AllocationState × List OrderRequest :=
  let screened := screenIntents b.timestamp b.intents
  let events := s.events ++ [.started b.timestamp b.intents.length] ++ screened.2
  if screened.1 = [] then ({ s with events := events }, [])
  else
    let sized := sizeIntents s b screened.1
    let admitted := withinCeilings s b sized.1
    let orders := emitOrders b admitted.admitted
    let total := totalCommitment orders.emitted
    let events := events ++ sized.2 ++ admitted.events ++ orders.events
    if fitsBudget s total then
      let requests := orders.emitted.map (·.request)
      let reserved := orders.emitted.foldl (reserveOrder admitted.commitments) s
      ({ reserved with
          history := s.history ++ requests
          events := events ++ [.completed b.timestamp requests.length total]
          notionalAllocated := add s.notionalAllocated total }, requests)
    else
      ({ s with events := events ++ [.budgetExceeded b.timestamp total
          (subtract s.budget.availableGlobalCapital s.notionalAllocated)] }, [])

end AlphaLab
