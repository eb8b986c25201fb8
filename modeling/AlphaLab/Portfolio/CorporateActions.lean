/-
  What happens to a holding beside trades (`portfolio/corporate_actions.py`).

  A value of each type satisfies what its constructor checks, so an operation
  that takes one need not check it again.
-/
import AlphaLab.Portfolio.State

namespace AlphaLab

inductive CashFlowKind where
  | dividend | interest | fee | funding

def CashFlowKind.value : CashFlowKind → String
  | dividend => "dividend"
  | interest => "interest"
  | fee => "fee"
  | funding => "funding"

def CashFlowKind.transactionType : CashFlowKind → TransactionType
  | dividend => .dividend
  | interest => .interest
  | fee => .fee
  | funding => .funding

structure CashFlow where
  kind : CashFlowKind
  amount : Decimal
  currency : String
  assetId : String := ""
  reference : String := ""
  amount_ne : amount ≠ 0
  named : blank currency = false

structure Split where
  assetId : String
  ratio : Decimal
  named : blank assetId = false
  ratio_pos : 0 < ratio
  ratio_ne : ratio ≠ 1

structure ExchangeLeg where
  assetId : String
  ratio : Decimal
  basisShare : Decimal
  inLieuPrice : Option Decimal := none
  named : assetId ≠ ""
  ratio_pos : 0 < ratio
  share_nonneg : 0 ≤ basisShare
  share_le_one : basisShare ≤ 1
  inLieu_nonneg : ∀ p ∈ inLieuPrice, 0 ≤ p

/-- The share of the basis that neither legs nor the holding carry. -/
def cashShareOf (legs : List ExchangeLeg) (retained : Option Decimal) : Decimal :=
  1 - (legs.map (·.basisShare)).sum - retained.getD 0

structure HoldingExchange where
  assetId : String
  legs : List ExchangeLeg := []
  cashPerUnit : Decimal := 0
  cashCurrency : Option String := none
  retainedBasisShare : Option Decimal := none
  reference : String := ""
  named : assetId ≠ ""
  distinct : (legs.map (·.assetId)).Nodup
  notOwn : assetId ∉ legs.map (·.assetId)
  cash_nonneg : 0 ≤ cashPerUnit
  delivers : legs ≠ [] ∨ cashPerUnit ≠ 0
  retained_unit : ∀ r ∈ retainedBasisShare, 0 ≤ r ∧ r ≤ 1
  share_nonneg : 0 ≤ cashShareOf legs retainedBasisShare
  share_paid : cashPerUnit = 0 → cashShareOf legs retainedBasisShare = 0

def HoldingExchange.cashBasisShare (x : HoldingExchange) : Decimal :=
  cashShareOf x.legs x.retainedBasisShare

structure ExchangedHolding where
  assetId : String
  quantity : Decimal
  basis : Decimal
  price : Decimal
  currency : String
  economics : Option InstrumentEconomics := none

end AlphaLab
