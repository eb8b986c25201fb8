/-
  How an order asks to be executed, and a proposed order
  (`common/order_terms.py`, `core/order_request.py`).
-/
import AlphaLab.Core.Contribution
import AlphaLab.Core.Enums

namespace AlphaLab

/-- What `OrderTerms` checks when it is built: a limit where the type needs one, a
    stop likewise, an expiry where the lifetime has one. -/
def validTerms (orderType : OrderType) (limitPrice stopPrice : Option Decimal)
    (timeInForce : TimeInForce) (expireAt : Option Instant) : Bool :=
  let needsLimit : Bool := orderType = .limit || orderType = .stopLimit
  let needsStop : Bool := orderType = .stop || orderType = .stopLimit
  (needsLimit = limitPrice.isSome) && (needsStop = stopPrice.isSome) &&
    (match timeInForce with
      | .gtd => expireAt.isSome
      | .day => true
      | .gtc | .ioc | .fok | .opg | .cls => expireAt.isNone) &&
    !((timeInForce = .opg || timeInForce = .cls) && needsStop)

structure OrderTerms where
  orderType : OrderType := .market
  limitPrice : Option Decimal := none
  stopPrice : Option Decimal := none
  timeInForce : TimeInForce := .day
  expireAt : Option Instant := none
  valid : validTerms orderType limitPrice stopPrice timeInForce expireAt = true := by decide
deriving DecidableEq

/-- `MARKET`: a market order good for the day. -/
def marketTerms : OrderTerms := {}

instance : Inhabited OrderTerms := ⟨marketTerms⟩

/-- `is_immediate`: the order ends at its first attempt. -/
def OrderTerms.isImmediate (terms : OrderTerms) : Bool :=
  terms.timeInForce = .ioc || terms.timeInForce = .fok

/-- `OrderRequest`: a proposed order, sized and netted, not yet submitted. -/
structure OrderRequest where
  orderId : String
  strategyId : String
  assetId : String
  side : Side
  quantity : Decimal
  price : Decimal
  timestamp : Instant := 0
  contributions : List StrategyContribution := []
  terms : OrderTerms := marketTerms
deriving DecidableEq

def Side.signed (side : Side) (quantity : Decimal) : Decimal :=
  match side with
  | .buy => quantity
  | .sell => -quantity

end AlphaLab
