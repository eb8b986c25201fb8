/-
  The ledgers of the allocation engine (`allocation/budget.py`,
  `allocation/state.py`, and what `allocation/engine.py` does to them once an
  order is out).

  * `AllocationState` holds the reservation and the contributions of every
    order, each strategy's own positions, and the capital of the strategies that
    have a ceiling;
  * `recordFill` divides a fill among the strategies that asked for its order,
    `applyExecution` consumes a reservation, `releaseReservation` frees one,
    `retireContributions` ends an order's part in the ledgers.
-/
import AlphaLab.Allocation.Ceilings
import AlphaLab.Core.Orders
import AlphaLab.Lib.Runs

namespace AlphaLab

open Fallible

/-! ## The state -/

theorem none_enforced : false = true → ∀ strategyId ceiling,
    (Dict.empty : Dict String Decimal).get? strategyId = some ceiling → 0 ≤ ceiling := by simp

structure CapitalBudget where
  globalCapital : Decimal
  maximumExposure : Decimal
  cashBuffer : Decimal := 0
  strategyBudgets : Dict String Decimal := Dict.empty
  currency : String := ""
  enforceStrategyBudgets : Bool := false
  ceilings_nonneg : enforceStrategyBudgets = true →
    ∀ strategyId ceiling, strategyBudgets.get? strategyId = some ceiling → 0 ≤ ceiling := by
      first | exact none_enforced | simp

namespace CapitalBudget

variable (b : CapitalBudget)

def strategyCeiling (strategyId : String) : Option Decimal :=
  if b.enforceStrategyBudgets then b.strategyBudgets.get? strategyId else none

def availableGlobalCapital : Decimal := max 0 (b.globalCapital - b.cashBuffer)

def availableStrategyCapital (strategyId : String) : Decimal :=
  (b.strategyBudgets.get? strategyId).getD b.availableGlobalCapital

end CapitalBudget

/-- Why an intent, or an order of a batch, is refused and recorded. -/
inductive AllocationRejection where
  | invalid
  | notAnOrder
  | statedTwice
  | unsized
  | ceilingUnrecorded (strategyId : String)
  | ceiling (strategyId assetId : String) (committed limit quantity commitment : Decimal)
  | notWholeLots (assetId : String) (quantity : Decimal)
  | longOnly (assetId : String) (quantity : Decimal)

/-- `AllocationEvent`, without its identifier. -/
inductive AllocationEvent where
  | started (timestamp : Instant) (intents : ℕ)
  | rejected (timestamp : Instant) (reason : AllocationRejection)
  | netted (timestamp : Instant) (assetId : String) (quantity : Decimal) (side : Side)
  | budgetExceeded (timestamp : Instant) (requested available : Decimal)
  | completed (timestamp : Instant) (orders : ℕ) (notional : Decimal)
  | executionApplied (timestamp : Instant) (orderId : String) (notional : Decimal)
  | reservationReleased (timestamp : Instant) (orderId : String) (released : Decimal)

structure AllocationState where
  budget : CapitalBudget
  history : List OrderRequest := []
  events : List AllocationEvent := []
  notionalAllocated : Decimal := 0
  reservations : Dict String Decimal := Dict.empty
  contributions : Dict String (List StrategyContribution) := Dict.empty
  /-- Each strategy's own signed position per asset; `none` if never recorded. -/
  strategyPositions : Option (Dict String (Dict String Decimal)) := some Dict.empty
  strategyCapital : Dict String StrategyCapital := Dict.empty

/-- `AllocationState.initialize`: an empty state over a budget. -/
def AllocationState.initial (budget : CapitalBudget) : AllocationState where
  budget := budget

inductive LedgerRefusal where
  | unknownReservation (orderId : String)
  /-- `InvalidOperation`: a share has more digits than a split is computed in. -/
  | splitTooLong (orderId : String) (amount : Decimal)

abbrev StrategyPositions := Dict String (Dict String Decimal)

def setHeld (positions : StrategyPositions) (strategyId assetId : String) (quantity : Decimal) :
    StrategyPositions :=
  positions.set strategyId
    (((positions.get? strategyId).getD Dict.empty).set assetId quantity)

def settleHeld (positions : StrategyPositions) (strategyId assetId : String)
    (quantity : Decimal) : StrategyPositions :=
  let held := (positions.get? strategyId).getD Dict.empty
  positions.set strategyId
    (if quantity = 0 then held.delete assetId else held.set assetId quantity)

/-- Decimals of `_POSITION_QUANTUM`. -/
def positionPlaces : ℕ := 12

namespace AllocationState

variable (s : AllocationState)

def positionOf (strategyId assetId : String) : Decimal :=
  ((s.strategyPositions.getD Dict.empty).get? strategyId).elim 0
    fun held => (held.get? assetId).getD 0

def capitalOf (strategyId : String) : StrategyCapital :=
  (s.strategyCapital.get? strategyId).getD {}

def contributionsFor (orderId : String) : List StrategyContribution :=
  (s.contributions.get? orderId).getD []

def reservedNotional (orderId : String) : Decimal := (s.reservations.get? orderId).getD 0

def setPosition (strategyId assetId : String) (quantity : Decimal) : AllocationState :=
  { s with strategyPositions := s.strategyPositions.map (setHeld · strategyId assetId quantity) }

def settlePosition (strategyId assetId : String) (quantity : Decimal) : AllocationState :=
  { s with
    strategyPositions := s.strategyPositions.map (settleHeld · strategyId assetId quantity) }

def setCapital (strategyId : String) (capital : StrategyCapital) : AllocationState :=
  { s with strategyCapital := s.strategyCapital.set strategyId capital }

/-- One strategy's share of a fill, in its position and, if it has a ceiling, in
    its capital. -/
def bookShare (orderId assetId : String) (unitValue : Option Decimal)
    (part : String × Decimal) : AllocationState :=
  let before := s.positionOf part.1 assetId
  let booked := s.setPosition part.1 assetId (before + part.2)
  match unitValue, s.budget.strategyCeiling part.1 with
  | some value, some _ =>
    booked.setCapital part.1 ((s.capitalOf part.1).fill orderId assetId before part.2 value)
  | _, _ => booked

/-- The value of a unit of a fill, where ceilings are enforced and its notional is
    known. -/
def unitValueOf (signedQuantity : Decimal) (executedNotional : Option Decimal) : Option Decimal :=
  if s.budget.enforceStrategyBudgets then
    executedNotional.map fun notional => divide notional |signedQuantity|
  else none

def recordFill (orderId assetId : String) (signedQuantity : Decimal)
    (executedNotional : Option Decimal := none) : Except LedgerRefusal AllocationState :=
  let contributions := s.contributionsFor orderId
  if s.strategyPositions = none ∨ contributions = [] ∨ signedQuantity = 0 then pure s
  else do
    let parts ← orRefuse (splitByContribution signedQuantity contributions positionPlaces)
      (.splitTooLong orderId signedQuantity)
    let unitValue := s.unitValueOf signedQuantity executedNotional
    pure (parts.foldl (fun s part => s.bookShare orderId assetId unitValue part) s)

/-- `apply_execution`: consume what an order executed from its reservation. -/
def applyExecution (orderId : String) (executedNotional : Decimal) (timestamp : Instant) :
    AllocationState :=
  let reserved := s.reservations.get? orderId
  let consumed := reserved.elim 0 fun held => min held executedNotional
  { s with
    notionalAllocated := subtract s.notionalAllocated consumed
    reservations := match reserved with
      | none => s.reservations
      | some held =>
        if subtract held consumed ≤ 0 then s.reservations.delete orderId
        else s.reservations.set orderId (subtract held consumed)
    events := s.events ++ [.executionApplied timestamp orderId executedNotional] }

def releaseReservation (orderId : String) (timestamp : Instant) :
    Except LedgerRefusal AllocationState := do
  let released ← orRefuse (s.reservations.get? orderId) (.unknownReservation orderId)
  pure { s with
    notionalAllocated := subtract s.notionalAllocated released
    reservations := s.reservations.delete orderId
    events := s.events ++ [.reservationReleased timestamp orderId released] }

def freeCapital (orderId : String) (strategyId : String) : AllocationState :=
  match s.strategyCapital.get? strategyId with
  | none => s
  | some capital => s.setCapital strategyId (capital.release orderId)

/-- `retire_contributions`: an order's life has ended, and with it what it reserved
    for each strategy. -/
def retireContributions (orderId : String) : AllocationState :=
  match s.contributions.get? orderId with
  | none => s
  | some contributions =>
    let freed := contributions.foldl (fun s c => s.freeCapital orderId c.strategyId) s
    { freed with contributions := s.contributions.delete orderId }

/-! ## Positions moved without an order -/

/-- `shares_of`: each strategy's own signed position, in strategy order. -/
def sharesOf (assetId : String) : List (String × Decimal) :=
  (s.strategyPositions.getD Dict.empty).entries.filterMap fun (strategyId, held) =>
    (held.get? assetId).bind fun quantity =>
      if quantity ≠ 0 then some (strategyId, quantity) else none

/-- `apply_split`: every position in post-split units. -/
def applySplit (assetId : String) (ratio : Decimal) : AllocationState :=
  (s.strategyPositions.getD Dict.empty).entries.foldl (fun s e =>
    match e.2.get? assetId with
    | none => s
    | some quantity => s.setPosition e.1 assetId (multiply quantity ratio)) s

/-- A ceilinged strategy's capital after its position moved without an order. -/
def moveCapital (strategyId assetId : String) (held quantity unitValue : Decimal) :
    AllocationState :=
  match s.strategyCapital.get? strategyId with
  | none => s
  | some capital =>
    s.setCapital strategyId (capital.fill "" assetId held quantity unitValue)

/-- `settle_asset`: every strategy's position closed, and whose it was. -/
def settleAsset (assetId : String) : AllocationState × List StrategyContribution :=
  ((s.sharesOf assetId).foldl (fun s e =>
      (s.settlePosition e.1 assetId 0).moveCapital e.1 assetId e.2 (-e.2) 0) s,
    (s.sharesOf assetId).map fun e => ⟨e.1, |e.2|⟩)

def closeUnits (assetId : String) (e : String × Decimal) : AllocationState :=
  let held := s.positionOf e.1 assetId
  (s.settlePosition e.1 assetId (held - e.2)).moveCapital e.1 assetId held (-e.2) 0

def receiveUnits (assetId : String) (unitValue : Decimal) (e : String × Decimal) :
    AllocationState :=
  let held := s.positionOf e.1 assetId
  (s.settlePosition e.1 assetId (held + e.2)).moveCapital e.1 assetId held e.2 unitValue

/-- `apply_lifecycle`: an exercise, an assignment or a delivery in each strategy's
    own positions. -/
def applyLifecycle (assetId : String) (closed : List (String × Decimal))
    (delivered : Option (String × List (String × Decimal) × Decimal) := none) :
    AllocationState :=
  if s.strategyPositions = none then s
  else
    let current := closed.foldl (fun s e => s.closeUnits assetId e) s
    match delivered with
    | none => current
    | some (deliveredAsset, units, unitValue) =>
      units.foldl (fun s e => s.receiveUnits deliveredAsset unitValue e) current

end AllocationState

/-! ## Facts of positions -/

section
variable (s : AllocationState)

variable {s}

theorem positionOf_setPosition (strategyId assetId : String) (quantity : Decimal)
    (hrecorded : s.strategyPositions ≠ none) (i a : String) :
    (s.setPosition strategyId assetId quantity).positionOf i a =
      if i = strategyId ∧ a = assetId then quantity else s.positionOf i a := by
  obtain ⟨positions, hp⟩ := Option.ne_none_iff_exists'.mp hrecorded
  unfold AllocationState.positionOf AllocationState.setPosition
  rw [hp, Option.map_some, Option.getD_some, Option.getD_some, setHeld, Dict.get?_set]
  by_cases hi : i = strategyId
  · subst hi
    rw [if_pos rfl, Option.elim_some, Dict.get?_set]
    by_cases ha : a = assetId
    · simp [ha]
    · cases positions.get? i <;> simp [ha]
  · simp [hi]

def partOf (parts : List (String × Decimal)) (strategyId : String) : Decimal :=
  ((parts.filter (·.1 = strategyId)).map Prod.snd).sum

variable (orderId assetId : String) (unitValue : Option Decimal) (part : String × Decimal)

@[simp] theorem bookShare_budget :
    (s.bookShare orderId assetId unitValue part).budget = s.budget := by
  unfold AllocationState.bookShare
  dsimp only
  split <;> rfl

theorem bookShare_recorded (h : s.strategyPositions ≠ none) :
    (s.bookShare orderId assetId unitValue part).strategyPositions ≠ none := by
  unfold AllocationState.bookShare
  dsimp only
  split
  · simpa [AllocationState.setPosition, AllocationState.setCapital] using h
  · simpa [AllocationState.setPosition] using h

theorem positionOf_bookShare (h : s.strategyPositions ≠ none) (i a : String) :
    (s.bookShare orderId assetId unitValue part).positionOf i a =
      s.positionOf i a + if i = part.1 ∧ a = assetId then part.2 else 0 := by
  have hset := positionOf_setPosition part.1 assetId (s.positionOf part.1 assetId + part.2) h i a
  have hbook : (s.bookShare orderId assetId unitValue part).positionOf i a =
      (s.setPosition part.1 assetId (s.positionOf part.1 assetId + part.2)).positionOf i a := by
    unfold AllocationState.bookShare
    dsimp only
    split
    · rfl
    · rfl
  rw [hbook, hset]
  split_ifs with hia
  · rw [hia.1, hia.2]
  · rw [add_zero]

/-- **Shares booked one after another** move each strategy by its own. -/
theorem positionOf_bookShares (parts : List (String × Decimal)) (h : s.strategyPositions ≠ none)
    (i a : String) :
    (parts.foldl (fun s part => s.bookShare orderId assetId unitValue part) s).positionOf i a =
        s.positionOf i a + (if a = assetId then partOf parts i else 0) ∧
      (parts.foldl (fun s part => s.bookShare orderId assetId unitValue part)
        s).strategyPositions ≠ none := by
  induction parts generalizing s with
  | nil => exact ⟨by simp [partOf], h⟩
  | cons part parts ih =>
    obtain ⟨hpos, hrec⟩ := ih (bookShare_recorded orderId assetId unitValue part h)
    refine ⟨?_, hrec⟩
    rw [List.foldl_cons, hpos, positionOf_bookShare _ _ _ _ h]
    by_cases ha : a = assetId
    · by_cases hi : i = part.1
      · simp [partOf, ha, hi, add_assoc]
      · simp [partOf, ha, hi, Ne.symm hi]
    · simp [ha]

end

end AlphaLab
