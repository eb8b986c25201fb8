/-
  Execution algorithms: one parent order worked as a sequence of children
  (`execution/algorithms.py`).

  * `planSchedule` partitions the window of a TWAP or VWAP and apportions the
    parent's increments over it (`apportionUnits`, by largest remainder);
  * `AlgorithmState` counts what was released, filled and returned, and keeps every
    child; `releaseChildren`, `recordChildExecution`, `recordChildOutcome` and
    `cancelAlgorithm` are its operations.
-/
import AlphaLab.Core.Orders
import AlphaLab.Lib.Register
import AlphaLab.Lib.Runs

namespace AlphaLab

open Fallible

/-! ## Configurations -/

/-- `Urgency`: how front-loaded a schedule is. -/
structure Urgency where
  kappa : Decimal
  valid : 0 ≤ kappa ∧ kappa ≤ 100

/-- `IntervalVolume`: the volume of a half-open interval, or its absence. -/
structure IntervalVolume where
  start : Instant
  «end» : Instant
  volume : Option Decimal
  ordered : start < «end»
  nonneg : ∀ v ∈ volume, 0 ≤ v

/-- `VolumeProfile`: the volume a market is expected to trade, in contiguous intervals. -/
structure VolumeProfile where
  intervals : List IntervalVolume
  source : String
  nonempty : intervals ≠ []
  contiguous : intervals.IsChain fun earlier later => later.start = earlier.end

inductive MissingVolumePolicy where
  | refuse | timeWeighted

inductive IncompletePolicy where
  | leaveUnfilled | completeAtEnd
deriving DecidableEq

structure Participation where
  rate : Decimal
  minChildQuantity : Option Decimal := none
  maxChildQuantity : Option Decimal := none
  atEnd : IncompletePolicy
  rated : 0 < rate ∧ rate ≤ 1
  bounds : ∀ q, q ∈ minChildQuantity ∨ q ∈ maxChildQuantity → 0 < q
  ordered : ∀ low ∈ minChildQuantity, ∀ high ∈ maxChildQuantity, low ≤ high

structure TrancheRandomization where
  spread : Decimal
  seed : ℕ
  positive : 0 < spread

/-- `ExecutionAlgorithm`; a slicing is by quantity or by count. -/
inductive ExecutionAlgorithm where
  | twap (slices : ℕ) (positive : 1 ≤ slices) (urgency : Urgency)
  | vwap (profile : VolumeProfile) (missingVolume : MissingVolumePolicy) (urgency : Urgency)
  | participation (participation : Participation)
  | slicing (sliceQuantity : Decimal) (positive : 0 < sliceQuantity)
  | sliceCount (sliceCount : ℕ) (positive : 1 ≤ sliceCount)
  | iceberg (displayQuantity : Decimal) (randomization : Option TrancheRandomization)
      (positive : 0 < displayQuantity) (narrow : ∀ r ∈ randomization, r.spread < displayQuantity)

structure AlgorithmTerms where
  start : Instant
  «end» : Instant
  quantityIncrement : Decimal
  orderType : OrderType
  limitPrice : Option Decimal
  ordered : start < «end»
  positive : 0 < quantityIncrement
  priced : orderType = .market ∧ limitPrice = none ∨ orderType = .limit ∧ limitPrice.isSome

/-! ## Schedules -/

inductive ScheduleBasis where
  | time | volume | timeFallback

/-- Why a profile could not say how volume is distributed. -/
inductive MissingVolume where
  | uncovered
  | unknown
  | empty
deriving DecidableEq

structure ScheduledSlice where
  index : ℕ
  start : Instant
  «end» : Instant
  weight : Decimal
  quantity : Decimal
  target : Decimal

/-- `ExecutionSchedule`; its note is what was missing. -/
structure ExecutionSchedule where
  slices : List ScheduledSlice
  basis : ScheduleBasis
  note : List MissingVolume

/-- `target_at`: what is due by the end of the latest slice that has opened. -/
def ExecutionSchedule.targetAt (schedule : ExecutionSchedule) (now : Instant) :
    Decimal × Option ScheduledSlice :=
  match (schedule.slices.takeWhile (·.start ≤ now)).getLast? with
  | none => (0, none)
  | some current => (current.target, some current)

/-- `ExecutionValidationError` -/
inductive AlgorithmRefusal where
  | notWhole (quantity increment : Decimal)
  | nothingToWork (quantity : Decimal)
  | noVolume (missing : List MissingVolume)
  | outsideWindow
  | observedTwice
  | unknownChild (childId : String)
  | finishedChild (childId : String) (outcome : OrderStatus)
  | notAFill (quantity : Decimal)
  | overfill (childId : String) (filled : Decimal)
  | notAnOutcome (outcome : OrderStatus)
  /-- `InvalidOperation`: nothing divided by nothing -/
  | undefined
deriving DecidableEq

/-- `_require_multiple`: how many increments a quantity is. -/
def requireMultiple (quantity increment : Decimal) : Except AlgorithmRefusal ℤ := do
  let units := divide quantity increment
  require (units = ⌊units⌋) (.notWhole quantity increment)
  pure ⌊units⌋

/-- What the schedules of a run are computed with, and how its tranches are drawn and it is
    named. -/
structure AlgorithmSupport where
  exp : Decimal → Decimal
  drawnOffset : TrancheRandomization → String → ℕ → Decimal → Decimal := fun _ _ _ _ => 0
  runId : OrderRequest → ExecutionAlgorithm → AlgorithmTerms → String

def AlgorithmSupport.sinh (support : AlgorithmSupport) (value : Decimal) : Decimal :=
  let grown := support.exp value
  divide (subtract grown (divide 1 grown)) 2

/-- `fraction`: the share of the parent due by a clock. -/
def Urgency.fraction (support : AlgorithmSupport) (urgency : Urgency) (clock : Decimal) :
    Decimal :=
  if clock ≤ 0 then 0
  else if 1 ≤ clock then 1
  else if urgency.kappa = 0 then clock
  else subtract 1 (divide (support.sinh (multiply urgency.kappa (subtract 1 clock)))
    (support.sinh urgency.kappa))

/-- `_sum` -/
def contextSum (values : List Decimal) : Decimal := values.foldl add 0

/-- The first `n` of a list as a slice reads it: a negative `n` leaves that many out at the
    end. -/
def sliceTo {α : Type} (n : ℤ) (l : List α) : List α :=
  if 0 ≤ n then l.take n.toNat else l.take (l.length - (-n).toNat)

/-- `_apportion`: whole units by the largest remainder method, ties to the lower index. -/
def apportionUnits (total : ℤ) (weights : List Decimal) : List ℤ :=
  let whole := contextSum weights
  let ideals := weights.map fun weight => divide (multiply total weight) whole
  let shares := ideals.map fun ideal => ⌊ideal⌋
  let leftover := total - shares.sum
  let remainders := ideals.map fun ideal => subtract ideal ⌊ideal⌋
  let ranked := (List.range weights.length).insertionSort fun i j =>
    remainders.getD j 0 < remainders.getD i 0 ∨
      remainders.getD j 0 = remainders.getD i 0 ∧ i ≤ j
  let topped := sliceTo leftover ranked
  shares.zipIdx.map fun share => if share.2 ∈ topped then share.1 + 1 else share.1

def timeBoundaries (start «end» : Instant) (count : ℕ) : List (Instant × Instant) :=
  let edges := (List.range count).map (fun index : ℕ => start + («end» - start) * index / count) ++
    [«end»]
  edges.zip edges.tail

/-- `_profile_slices`: the intervals clipped to the window, each with its share of the
    volume. -/
def profileSlices (profile : VolumeProfile) (start «end» : Instant) :
    List (Instant × Instant × Option Decimal) :=
  profile.intervals.filterMap fun interval =>
    let low := max interval.start start
    let high := min interval.end «end»
    if low < high then
      some (low, high, interval.volume.map fun volume =>
        multiply volume (divide (subtract high low) (subtract interval.end interval.start)))
    else none

def missingVolumes (slices : List (Instant × Instant × Option Decimal)) (start «end» : Instant) :
    List MissingVolume :=
  let covers : Bool := (slices.head?.map (·.1)) = some start &&
    (slices.getLast?.map (·.2.1)) = some «end»
  let volumes := slices.map (·.2.2)
  (if covers then [] else [.uncovered]) ++
    (if volumes.any (·.isNone) then [.unknown] else []) ++
    (if volumes ≠ [] ∧ volumes.all (·.isSome) ∧ contextSum (volumes.filterMap id) = 0 then [.empty]
      else [])

def clockSlices (algorithm : ExecutionAlgorithm) (terms : AlgorithmTerms) :
    Except AlgorithmRefusal (Option (List (Instant × Instant) × List Decimal × Urgency ×
      ScheduleBasis × List MissingVolume)) :=
  match algorithm with
  | .twap slices _ urgency =>
    let bounds := timeBoundaries terms.start terms.end slices
    pure (some (bounds, bounds.map fun _ => 1, urgency, .time, []))
  | .vwap profile missingVolume urgency =>
    let clipped := profileSlices profile terms.start terms.end
    let missing := missingVolumes clipped terms.start terms.end
    let edges := clipped.map fun slice => (slice.1, slice.2.1)
    if missing = [] then
      pure (some (edges, clipped.filterMap (·.2.2), urgency, .volume, []))
    else
      match missingVolume with
      | .refuse => throw (.noVolume missing)
      | .timeWeighted =>
        let bounds := if .uncovered ∈ missing then
          timeBoundaries terms.start terms.end (max 1 clipped.length) else edges
        pure (some (bounds, bounds.map fun b => subtract b.2 b.1, urgency, .timeFallback, missing))
  | .participation _ | .slicing .. | .sliceCount .. | .iceberg .. => pure none

def runningSlices (increment whole : Decimal) : ℕ → Decimal →
    List ((Instant × Instant) × Decimal × ℤ) → List ScheduledSlice
  | _, _, [] => []
  | index, target, ((low, high), weight, share) :: rest =>
    let quantity := multiply increment share
    let due := add target quantity
    { index := index
      start := low
      «end» := high
      weight := divide weight whole
      quantity := quantity
      target := due } :: runningSlices increment whole (index + 1) due rest

/-- Whether `fraction` has an answer: the sine of a tiny urgency is rounded to nothing, and
    nothing is not divided by it. -/
def Urgency.divides (support : AlgorithmSupport) (urgency : Urgency) (clock : Decimal) : Bool :=
  clock ≤ 0 || 1 ≤ clock || urgency.kappa = 0 || support.sinh urgency.kappa ≠ 0

def sliceClocks (weights : List Decimal) : List Decimal :=
  ((weights.inits.drop 1).map contextSum).map fun running => divide running (contextSum weights)

def dueShares (support : AlgorithmSupport) (urgency : Urgency) (weights : List Decimal) :
    List Decimal :=
  let fractions := (sliceClocks weights).map (urgency.fraction support)
  (fractions.zip (0 :: fractions)).map fun f => subtract f.1 f.2

/-- `plan_schedule`, on the slices of a clock. -/
def scheduleOn (support : AlgorithmSupport) (terms : AlgorithmTerms) (total : ℤ)
    (clock : List (Instant × Instant) × List Decimal × Urgency × ScheduleBasis ×
      List MissingVolume) : Except AlgorithmRefusal ExecutionSchedule := do
  let (bounds, weights, urgency, basis, note) := clock
  require ((sliceClocks weights).all (urgency.divides support) = true) .undefined
  let units := apportionUnits total (dueShares support urgency weights)
  pure {
    slices := runningSlices terms.quantityIncrement (contextSum weights) 1 0
      (bounds.zip (weights.zip units))
    basis := basis
    note := note }

/-- `plan_schedule`; none for the algorithms that plan nothing. -/
def planSchedule (support : AlgorithmSupport) (parentQuantity : Decimal)
    (algorithm : ExecutionAlgorithm) (terms : AlgorithmTerms) :
    Except AlgorithmRefusal (Option ExecutionSchedule) := do
  let total ← requireMultiple parentQuantity terms.quantityIncrement
  require (0 < total) (.nothingToWork parentQuantity)
  let clock ← clockSlices algorithm terms
  clock.mapM (scheduleOn support terms total)

/-! ## Children -/

/-- `ChildOrder`: one instruction an algorithm released. -/
structure ChildOrder where
  childId : String
  parentOrderId : String
  sequence : ℕ
  assetId : String
  side : Side
  quantity : Decimal
  orderType : OrderType
  limitPrice : Option Decimal
  releasedAt : Instant
  expiresAt : Option Instant
  strategyId : String
  contributions : List StrategyContribution
  algorithmId : String

/-- `ChildProgress`: a child and how it stands. -/
structure ChildProgress where
  child : ChildOrder
  filled : Decimal := 0
  outcome : Option OrderStatus := none

def ChildProgress.childId (progress : ChildProgress) : String := progress.child.childId

inductive AlgorithmStatus where
  | working | completed | cancelled | expired | failed
deriving DecidableEq

/-- `_TERMINAL_STATUSES` -/
def AlgorithmStatus.isTerminal : AlgorithmStatus → Bool
  | completed | cancelled | expired | failed => true
  | working => false

inductive StopReason where
  | everythingFilled
  | windowClosed («end» : Instant) (remaining quantity : Decimal)
  | childRejected (childId : String)
  | said (text : String)

inductive AlgorithmNote where
  | planned (missing : List MissingVolume)
  | noVolume (start «end» : Instant)
  | insufficient (now : Instant) (allowed minimum : Decimal)

/-- `AlgorithmState`; its children by their identifiers, as they were released. -/
structure AlgorithmState where
  parent : OrderRequest
  algorithm : ExecutionAlgorithm
  terms : AlgorithmTerms
  algorithmId : String
  schedule : Option ExecutionSchedule
  children : Register ChildProgress.childId := Register.empty
  released : Decimal := 0
  filled : Decimal := 0
  returned : Decimal := 0
  executions : List String := []
  observedVolume : Decimal := 0
  observedUntil : Option Instant := none
  status : AlgorithmStatus := .working
  reason : Option StopReason := none
  notes : List AlgorithmNote := []

namespace AlgorithmState

variable (a : AlgorithmState)

/-- `working`: released, and neither filled nor returned. -/
def working : Decimal := subtract (subtract a.released a.filled) a.returned

/-- `unreleased`: what may still be released. -/
def unreleased : Decimal := add (subtract a.parent.quantity a.released) a.returned

def remaining : Decimal := subtract a.parent.quantity a.filled

def isTerminal : Bool := a.status.isTerminal

def workingChildren : List ChildOrder :=
  (a.children.values.filter (·.outcome.isNone)).map (·.child)

end AlgorithmState

def startAlgorithm (support : AlgorithmSupport) (parent : OrderRequest)
    (algorithm : ExecutionAlgorithm) (terms : AlgorithmTerms) :
    Except AlgorithmRefusal AlgorithmState := do
  require (0 < parent.quantity) (.nothingToWork parent.quantity)
  let increment := terms.quantityIncrement
  let _ ← requireMultiple parent.quantity increment
  let sizes := match algorithm with
    | .slicing sliceQuantity _ => [sliceQuantity]
    | .iceberg displayQuantity randomization .. =>
      displayQuantity :: randomization.toList.map TrancheRandomization.spread
    | .participation p => p.minChildQuantity.toList ++ p.maxChildQuantity.toList
    | .twap .. | .vwap .. | .sliceCount .. => []
  let _ ← sizes.mapM fun size => requireMultiple size increment
  let schedule ← planSchedule support parent.quantity algorithm terms
  pure {
    parent := parent
    algorithm := algorithm
    terms := terms
    algorithmId := support.runId parent algorithm terms
    schedule := schedule
    notes := (schedule.filter (·.note ≠ [])).toList.map fun schedule => .planned schedule.note }

namespace AlgorithmState

variable (a : AlgorithmState)

/-! ## Releases -/

/-- `_child`: the next child's name is its place among the children. -/
def child (quantity : Decimal) (now : Instant) (expires : Option Instant) : ChildOrder :=
  let sequence := a.children.values.length + 1
  { childId := a.parent.orderId ++ "/" ++ toString sequence
    parentOrderId := a.parent.orderId
    sequence := sequence
    assetId := a.parent.assetId
    side := a.parent.side
    quantity := quantity
    orderType := a.terms.orderType
    limitPrice := a.terms.limitPrice
    releasedAt := now
    expiresAt := expires
    strategyId := a.parent.strategyId
    contributions := a.parent.contributions
    algorithmId := a.algorithmId }

/-- `_released` -/
def withReleased (child : ChildOrder) : AlgorithmState :=
  { a with
    children := a.children.put { child := child }
    released := add a.released child.quantity }

def observeInterval (interval : IntervalVolume) : Except AlgorithmRefusal AlgorithmState := do
  require (a.terms.start ≤ interval.start ∧ interval.end ≤ a.terms.end) .outsideWindow
  require (a.observedUntil.all (· ≤ interval.start)) .observedTwice
  match interval.volume with
  | none => pure { a with
      observedUntil := some interval.end
      notes := a.notes ++ [.noVolume interval.start interval.end] }
  | some volume => pure { a with
      observedUntil := some interval.end
      observedVolume := add a.observedVolume volume }

def observe (volumes : List IntervalVolume) : Except AlgorithmRefusal AlgorithmState :=
  volumes.foldlM (fun a interval => a.observeInterval interval) a

/-- `_floor_to` -/
def floorToIncrement (quantity increment : Decimal) : Decimal :=
  multiply ⌊divide quantity increment⌋ increment

/-- The rate's share of the volume observed, in whole increments, as far as the parent goes. -/
def participationTarget (p : Participation) : Decimal :=
  min (floorToIncrement (multiply p.rate a.observedVolume) a.terms.quantityIncrement)
    a.parent.quantity

/-- What is left up to a target: what has neither filled nor works, and may be released. -/
def topUp (target : Decimal) : Decimal :=
  min (subtract (subtract target a.filled) a.working) a.unreleased

def participationRelease (p : Participation) (now : Instant) : Decimal × List AlgorithmNote :=
  if a.terms.end ≤ now then
    match p.atEnd with
    | .completeAtEnd => (a.unreleased, [])
    | .leaveUnfilled => (0, [])
  else
    let quantity := a.topUp (a.participationTarget p)
    if quantity ≤ 0 then (0, [])
    else match p.minChildQuantity.filter fun low => quantity < low ∧ quantity < a.unreleased with
      | some low => (0, [.insufficient now quantity low])
      | none => (p.maxChildQuantity.elim quantity (min quantity ·), [])

def sliceByCount (count : ℕ) : Decimal :=
  let increment := a.terms.quantityIncrement
  let total := roundDown (divide a.parent.quantity increment)
  let sent := a.children.values.length
  let share := ⌊total⌋ / (count : ℤ) + (if (sent : ℤ) < ⌊total⌋ % (count : ℤ) then 1 else 0)
  if sent < count ∧ 0 < share then min (multiply increment share) a.unreleased else a.unreleased

/-- What the algorithm's rule says is due, until when its child works, and what it notes. -/
def due (support : AlgorithmSupport) (now : Instant) :
    Decimal × Option Instant × List AlgorithmNote :=
  match a.algorithm with
  | .twap .. | .vwap .. =>
    let planned := (a.schedule.map (·.targetAt now)).getD (0, none)
    (if now < a.terms.end then a.topUp planned.1 else 0, planned.2.map (·.end), [])
  | .participation p =>
    let found := a.participationRelease p now
    (found.1, none, found.2)
  | .iceberg displayQuantity randomization .. =>
    if 0 < a.working ∨ a.terms.end ≤ now then (0, none, [])
    else
      let tranche := randomization.elim displayQuantity fun randomization =>
        add displayQuantity (support.drawnOffset randomization a.algorithmId
          a.children.values.length a.terms.quantityIncrement)
      (min tranche a.unreleased, none, [])
  | .slicing sliceQuantity _ =>
    if 0 < a.working ∨ a.terms.end ≤ now then (0, none, [])
    else (min sliceQuantity a.unreleased, none, [])
  | .sliceCount sliceCount _ =>
    if 0 < a.working ∨ a.terms.end ≤ now then (0, none, [])
    else (a.sliceByCount sliceCount, none, [])

def atEnd : Option IncompletePolicy :=
  match a.algorithm with
  | .participation p => some p.atEnd
  | .twap .. | .vwap .. | .slicing .. | .sliceCount .. | .iceberg .. => none

/-- `_settle`: the status its quantities say a run has. -/
def settle (now : Instant) : AlgorithmState :=
  if a.status = .completed then a
  else if a.filled = a.parent.quantity then
    { a with status := .completed, reason := some .everythingFilled }
  else if a.isTerminal then a
  else if a.terms.end ≤ now ∧ a.working = 0 then
    if a.atEnd = some .completeAtEnd ∧ 0 < a.unreleased then a
    else { a with
      status := .expired
      reason := some (.windowClosed a.terms.end a.remaining a.parent.quantity) }
  else a

/-- `release_children`: whatever the rule says is due at `now`. -/
def releaseChildren (support : AlgorithmSupport) (now : Instant) (volumes : List IntervalVolume) :
    Except AlgorithmRefusal (AlgorithmState × List ChildOrder) := do
  let observed ← a.observe volumes
  if observed.isTerminal ∨ now < observed.terms.start then pure (observed, [])
  else
    let (quantity, expires, notes) := observed.due support now
    let noted := { observed with notes := observed.notes ++ notes }
    if 0 < quantity then
      let child := noted.child quantity now expires
      pure ((noted.withReleased child).settle now, [child])
    else pure (noted.settle now, [])

/-- `record_child_execution`: a child's fill, booked once. -/
def recordChildExecution (childId executionId : String) (quantity : Decimal)
    (timestamp : Instant) : Except AlgorithmRefusal AlgorithmState :=
  if executionId ∈ a.executions then pure a
  else do
    let progress ← orRefuse (a.children.get? childId) (.unknownChild childId)
    match progress.outcome with
    | some outcome => throw (.finishedChild childId outcome)
    | none => do
      require (0 < quantity) (.notAFill quantity)
      let filled := add progress.filled quantity
      require (filled ≤ progress.child.quantity) (.overfill childId filled)
      let outcome := if filled = progress.child.quantity then some OrderStatus.filled else none
      let booked := { a with
        children := a.children.put { progress with filled := filled, outcome := outcome }
        filled := add a.filled quantity
        executions := a.executions ++ [executionId] }
      pure (booked.settle timestamp)

/-- `_UNFILLED_OUTCOMES`: how a child finishes other than by filling. -/
def isUnfilledOutcome (outcome : OrderStatus) : Bool :=
  outcome = .cancelled || outcome = .expired || outcome = .rejected

/-- `record_child_outcome`: what a child did not fill goes back to the parent. -/
def recordChildOutcome (childId : String) (outcome : OrderStatus) (timestamp : Instant) :
    Except AlgorithmRefusal AlgorithmState := do
  require (isUnfilledOutcome outcome) (.notAnOutcome outcome)
  let progress ← orRefuse (a.children.get? childId) (.unknownChild childId)
  match progress.outcome with
  | some finished =>
    if finished = outcome then pure a else throw (.finishedChild childId finished)
  | none =>
    let closed := { a with
      children := a.children.put { progress with outcome := some outcome }
      returned := add a.returned (subtract progress.child.quantity progress.filled) }
    let failed := if outcome = .rejected ∧ ¬ closed.isTerminal then
      { closed with status := .failed, reason := some (.childRejected childId) } else closed
    pure (failed.settle timestamp)

/-- `cancel_algorithm`: nothing more is released, and these are still to be cancelled. -/
def cancelAlgorithm (reason : String) : AlgorithmState × List ChildOrder :=
  if a.isTerminal then (a, [])
  else ({ a with
    status := .cancelled
    reason := some (.said (if reason = "" then "Cancelled." else reason)) }, a.workingChildren)

end AlgorithmState

end AlphaLab
