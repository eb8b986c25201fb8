/-
  What each strategy has committed of its ceiling (`allocation/ceilings.py`).

  * `addingExposure` is how much a trade adds to the size of a position;
  * `StrategyCapital` is the cost of a strategy's positions and what its working
    orders reserve: `reserve`, `release`, `reduce` and `fill`.
-/
import AlphaLab.Portfolio.Money
import Mathlib.Data.String.Basic

namespace AlphaLab

/-- Whether a position of `held` that becomes `after` stays on its side. -/
def sameSide (held after : Decimal) : Prop := (0 < held ↔ 0 < after) ∧ after ≠ 0

instance (held after : Decimal) : Decidable (sameSide held after) :=
  inferInstanceAs (Decidable (_ ∧ _))

/-- `adding_exposure`: how many units `delta` adds to the size of a position of
    `held`; the whole new side for one that crosses zero. -/
def addingExposure (held delta : Decimal) : Decimal :=
  let after := held + delta
  if held = 0 ∨ sameSide held after then max 0 (|after| - |held|) else |after|

/-- `StrategyCapital`: positions at cost, and what working orders reserve. -/
structure StrategyCapital where
  deployed : Dict String Decimal := Dict.empty
  reserved : Dict String Decimal := Dict.empty
  deployedTotal : Decimal := 0
  reservedTotal : Decimal := 0

namespace StrategyCapital

variable (c : StrategyCapital)

def committed : Decimal := c.deployedTotal + c.reservedTotal

def reservedFor (orderId : String) : Decimal := (c.reserved.get? orderId).getD 0

def costOf (assetId : String) : Decimal := (c.deployed.get? assetId).getD 0

def reserve (orderId : String) (amount : Decimal) : StrategyCapital :=
  if amount ≤ 0 then c
  else { c with
    reserved := c.reserved.set orderId (c.reservedFor orderId + amount)
    reservedTotal := c.reservedTotal + amount }

def release (orderId : String) : StrategyCapital :=
  match c.reserved.get? orderId with
  | none => c
  | some amount => { c with
    reserved := c.reserved.delete orderId
    reservedTotal := c.reservedTotal - amount }

/-- `reduce`: an order cut in place holds at most `amount`. -/
def reduce (orderId : String) (amount : Decimal) : StrategyCapital :=
  match c.reserved.get? orderId with
  | none => c
  | some held =>
    if held ≤ amount then c
    else
      let kept := max 0 amount
      { c with
        reserved := if 0 < kept then c.reserved.set orderId kept else c.reserved.delete orderId
        reservedTotal := c.reservedTotal - (held - kept) }

/-- What is left of the cost of a position that a trade takes to `held + quantity`. -/
def keptCost (cost held quantity : Decimal) : Decimal :=
  let after := held + quantity
  if held ≠ 0 ∧ ¬ sameSide held after then 0
  else if |after| < |held| then divide (multiply cost |after|) |held|
  else cost

/-- What a trade deploys at `unitValue` a unit. -/
def deploys (held quantity unitValue : Decimal) : Decimal :=
  multiply (addingExposure held quantity) unitValue

/-- `deployed` after a position's cost changed to `cost`. -/
def deployedAt (assetId : String) (cost : Decimal) : Dict String Decimal :=
  if cost ≠ 0 then c.deployed.set assetId cost
  else if (c.deployed.get? assetId).isSome then c.deployed.delete assetId
  else c.deployed

/-- `fill`: the strategy's share of a fill, held `held` before. -/
def fill (orderId assetId : String) (held quantity unitValue : Decimal) : StrategyCapital :=
  let deployed := deploys held quantity unitValue
  let cost := keptCost (c.costOf assetId) held quantity + deployed
  let booked := { c with
    deployed := c.deployedAt assetId cost
    deployedTotal := c.deployedTotal - c.costOf assetId + cost }
  match c.reserved.get? orderId with
  | none => booked
  | some heldBack =>
    if 0 < deployed then
      let converted := min heldBack deployed
      let remaining := heldBack - converted
      { booked with
        reserved :=
          if 0 < remaining then c.reserved.set orderId remaining else c.reserved.delete orderId
        reservedTotal := c.reservedTotal - converted }
    else booked

end StrategyCapital

section
variable (c : StrategyCapital)

theorem addingExposure_nonneg (held delta : Decimal) : 0 ≤ addingExposure held delta := by
  rw [addingExposure]
  split_ifs
  · exact le_max_left _ _
  · exact abs_nonneg _

theorem reserve_committed (orderId : String) {amount : Decimal} (h : 0 ≤ amount) :
    (c.reserve orderId amount).committed = c.committed + amount := by
  rw [StrategyCapital.reserve]
  split_ifs with hle
  · rw [le_antisymm hle h, add_zero]
  · simp only [StrategyCapital.committed]
    ring

theorem release_committed (orderId : String) :
    (c.release orderId).committed = c.committed - c.reservedFor orderId := by
  rw [StrategyCapital.release, StrategyCapital.reservedFor]
  cases c.reserved.get? orderId with
  | none => simp
  | some amount =>
    simp only [StrategyCapital.committed, Option.getD_some]
    ring

/-- **How a fill moves what is committed**: what it deploys comes in, what it frees
    of the position's cost and of the order's reservation goes out. -/
theorem fill_committed (orderId assetId : String) {held quantity unitValue : Decimal}
    (hreserved : 0 ≤ c.reservedFor orderId)
    (hdeploys : 0 ≤ StrategyCapital.deploys held quantity unitValue) :
    (c.fill orderId assetId held quantity unitValue).committed =
      c.committed - (c.costOf assetId - StrategyCapital.keptCost (c.costOf assetId) held quantity) +
        StrategyCapital.deploys held quantity unitValue -
        min (c.reservedFor orderId) (StrategyCapital.deploys held quantity unitValue) := by
  rw [StrategyCapital.fill]
  unfold StrategyCapital.reservedFor at hreserved ⊢
  cases h : c.reserved.get? orderId with
  | none =>
    simp only [StrategyCapital.committed, Option.getD_none, min_eq_left hdeploys]
    ring
  | some heldBack =>
    rw [h, Option.getD_some] at hreserved
    dsimp only [Option.getD_some]
    by_cases hpos : 0 < StrategyCapital.deploys held quantity unitValue
    · rw [if_pos hpos]
      simp only [StrategyCapital.committed]
      ring
    · rw [if_neg hpos]
      have hzero : StrategyCapital.deploys held quantity unitValue = 0 :=
        le_antisymm (not_lt.mp hpos) hdeploys
      rw [hzero, min_eq_right hreserved]
      simp only [StrategyCapital.committed]
      ring

end

end AlphaLab
