/-
  The portfolio's state (`portfolio/engine.py`, `account.py`, `cash.py`,
  `amounts.py`, `events.py`, `fx.py`) and the refusals its operations raise.

  * `PortfolioState` is the account, the cash ledger, the book of positions,
    the transaction ledger, the event log, the accumulated results, the pending
    marks and the index of unsettled transactions.
  * `FxRates.convert` is the one conversion, rounded once to the quote
    currency's minor unit.
-/
import AlphaLab.Lib.Runs
import AlphaLab.Lib.SortedSet
import AlphaLab.Portfolio.Ledger
import AlphaLab.Portfolio.Position

namespace AlphaLab

open Fallible

inductive PortfolioRefusal where
  | unknownUnits (currency : String)
  | insufficientFunds (amount : Decimal) (currency : String) (available : Decimal)
  | amountWithoutCurrency
  | withoutCurrency (what : String)
  | notPositive (what : String) (amount : Decimal) (currency : String) (money : Decimal)
  | conversionNotPositive (amount : Decimal)
  | notAConversion (currency : String)
  /-- `InvalidTransactionError`: a fill must name the currency it settles in. -/
  | fillWithoutCurrency
  | priceNotAdmitted (assetId : String) (price : Decimal)
  /-- `InvalidTransactionError`: a fill must have a non-zero quantity. -/
  | zeroQuantity
  | otherCurrency (assetId held settles : String)
  /-- `InvalidTransactionError`: a position is booked one way for its life. -/
  | otherEconomics (assetId : String)
  | markNotAdmitted (assetId : String) (price : Decimal)
  /-- `InvalidTransactionError`: a cash flow that rounds to nothing. -/
  | nothingToBook (kind : String) (amount : Decimal) (currency : String)
  | noPositionToExchange (assetId : String)
  | oppositeHolding (assetId : String) (delivered held : Decimal)
  | paidNothing (holding : String) (effectiveAt : Instant) (currency : String)
  /-- `InvalidTransactionError`: the payment failed or was reversed already. -/
  | paymentClosed (holding currency : String) (change : PaymentChange) (at_ : Instant)
  | delayNotLater (timestamp : Instant) (until_ : Option Instant)
  | owesNothing (holding currency : String)
  | notYetPaid (holding currency : String)
  | statesUnits (change : PaymentChange)
  | replacementNamesCurrency
  | deliveryFailed (assetId holding : String)
  | correctionNotFewer (owed : Decimal) (units : Option Decimal)
  /-- `InvalidTransactionError`: a delivery is delayed, corrected or failed. -/
  | notADeliveryChange (change : PaymentChange)
  | noPositionToSplit (assetId : String)
  | missingRate (base quote : String)
  | futureDatedRate (base quote : String) (rateAsOf asOf : Instant)
  | staleRate (base quote : String) (age tolerated : Instant)
deriving DecidableEq

/-- The characters `str.strip` removes. -/
def isSpace (c : Char) : Bool :=
  c.val ∈ ([0x9, 0xa, 0xb, 0xc, 0xd, 0x1c, 0x1d, 0x1e, 0x1f, 0x20, 0x85, 0xa0, 0x1680, 0x2000,
    0x2001, 0x2002, 0x2003, 0x2004, 0x2005, 0x2006, 0x2007, 0x2008, 0x2009, 0x200a, 0x2028,
    0x2029, 0x202f, 0x205f, 0x3000] : List UInt32)

/-- `not text.strip()`. -/
def blank (text : String) : Bool := text.toList.all isSpace

/-! ## Cash and accumulated results -/

/-- Settled cash per currency, and what is reserved against it. -/
structure CashLedger where
  balances : Dict String Decimal := Dict.empty
  reserved : Dict String Decimal := Dict.empty
deriving DecidableEq

namespace CashLedger

variable (cash : CashLedger)

def balance (currency : String) : Decimal := (cash.balances.get? currency).getD 0

def availableCash (currency : String) : Decimal :=
  cash.balance currency - (cash.reserved.get? currency).getD 0

def deposit (amount : Decimal) (currency : String) : CashLedger :=
  { cash with balances := cash.balances.set currency (cash.balance currency + amount) }

def withdraw (amount : Decimal) (currency : String) : Except PortfolioRefusal CashLedger := do
  require (amount ≤ cash.availableCash currency)
    (.insufficientFunds amount currency (cash.availableCash currency))
  pure { cash with balances := cash.balances.set currency (cash.balance currency - amount) }

/-- Move the balance by an amount owed, whether or not cash covers it. -/
def settle (amount : Decimal) (currency : String) : CashLedger :=
  { cash with balances := cash.balances.set currency (cash.balance currency + amount) }

end CashLedger

structure CurrencyAmounts where
  amounts : Dict String Decimal := Dict.empty
deriving DecidableEq

namespace CurrencyAmounts

variable (a : CurrencyAmounts)

/-- The total accrued in `currency`. -/
def of (currency : String) : Decimal := (a.amounts.get? currency).getD 0

def add (amount : Decimal) (currency : String) : Except PortfolioRefusal CurrencyAmounts := do
  require (¬ blank currency) .amountWithoutCurrency
  pure ⟨a.amounts.set currency (a.of currency + amount)⟩

end CurrencyAmounts

/-! ## Exchange rates -/

/-- One quoted rate: `1 base` buys `rate` of `quote`, as of an instant. -/
structure FxRate where
  base : String
  quote : String
  rate : Decimal
  asOf : Instant
  source : String
  derived : Bool := false
  rate_pos : 0 < rate
  names_ne : base ≠ quote

instance : DecidableEq FxRate := fun a b =>
  decidable_of_iff (a.base = b.base ∧ a.quote = b.quote ∧ a.rate = b.rate ∧ a.asOf = b.asOf ∧
      a.source = b.source ∧ a.derived = b.derived)
    (by cases a; cases b; simp)

structure FxConversion where
  amount : Decimal
  converted : Decimal
  rate : FxRate

structure FxRates where
  rates : Dict (String × String) FxRate := Dict.empty
  maxAgeSeconds : Option Instant := none
  currencyUnits : CurrencyUnits := standardCurrencyUnits

def noRates : FxRates := {}

def FxRate.pair (r : FxRate) : String × String := (r.base, r.quote)

def FxRates.withRate (rates : FxRates) (rate : FxRate) : FxRates :=
  { rates with rates := rates.rates.set rate.pair rate }

/-- `to_money`, refused where the currency's minor unit is unknown. -/
def money (units : CurrencyUnits) (amount : Decimal) (currency : String) :
    Except PortfolioRefusal Decimal :=
  orRefuse (toMoney units amount currency) (.unknownUnits currency)

/-- The rate for a pair at `asOf`: held, not future-dated and not stale. -/
def FxRates.rateAt (rates : FxRates) (base quote : String) (asOf : Option Instant) :
    Except PortfolioRefusal FxRate := do
  let rate ← orRefuse (rates.rates.get? (base, quote)) (.missingRate base quote)
  match asOf with
  | none => pure rate
  | some at_ => do
    require (rate.asOf ≤ at_) (.futureDatedRate base quote rate.asOf at_)
    match rates.maxAgeSeconds with
    | none => pure rate
    | some tolerated => do
      require (at_ - rate.asOf ≤ tolerated) (.staleRate base quote (at_ - rate.asOf) tolerated)
      pure rate

/-- Convert `amount` from `base` to `quote`, rounded once to `quote`'s minor
    unit by `units`, or by the table's own. -/
def FxRates.convert (rates : FxRates) (amount : Decimal) (base quote : String)
    (asOf : Option Instant) (units : Option CurrencyUnits) :
    Except PortfolioRefusal FxConversion := do
  let rounding := units.getD rates.currencyUnits
  if base = quote then
    let converted ← money rounding amount quote
    pure ⟨amount, converted, ⟨base, base ++ "*", 1, 0, "identity", false, one_positive, by
      intro h
      simpa using congrArg String.length h⟩⟩
  else
    let rate ← rates.rateAt base quote asOf
    let converted ← money rounding (multiply amount rate.rate) quote
    pure ⟨amount, converted, rate⟩

/-- What a portfolio event records, beside its instant and account. -/
inductive EventBody where
  | cashDeposited (amount : Decimal) (currency : String)
  | cashWithdrawn (amount : Decimal) (currency : String)
  | positionOpened (assetId : String) (quantity price : Decimal)
  | positionIncreased (assetId : String) (addedQuantity price : Decimal)
  | positionReduced (assetId : String) (reducedQuantity price realizedPnl : Decimal)
  | positionClosed (assetId : String) (price realizedPnl : Decimal)
  | marketValueUpdated (prices : Dict String Decimal)
  | cashConverted (amount : Decimal) (fromCurrency : String) (converted : Decimal)
      (toCurrency : String) (rate : Decimal) (rateAsOf : Instant) (rateSource : String)
      (rateDerived : Bool)
  | variationSettled (assetId : String) (price amount : Decimal) (currency : String)
  | cashFlowBooked (kind assetId : String) (amount : Decimal) (currency reference : String)
  | positionExchanged (assetId : String) (quantity : Decimal) (received : Dict String Decimal)
      (consideration : Dict String Decimal) (realizedPnl : Decimal) (retained : Bool)
      (reference : String)
  | paymentAmended (assetId : String) (effectiveAt : Instant) (currency : String)
      (change : PaymentChange) (owedBefore owedAfter : Decimal) (settlesAt : Option Instant)
      (replacementCurrency : String) (replacement : Decimal) (reference : String)
  | deliveryAmended (assetId : String) (effectiveAt : Instant) (deliveredAsset : String)
      (change : PaymentChange) (owedBefore owedAfter : Decimal) (settlesAt : Option Instant)
      (reference : String)
  | positionSplit (assetId : String) (ratio quantity : Decimal)
deriving DecidableEq

structure PortfolioEvent where
  timestamp : Instant
  accountId : String
  body : EventBody
deriving DecidableEq

/-- Who a portfolio belongs to, and the minor units it books money at. -/
structure Account where
  accountId : String
  baseCurrency : String
  name : String
  createdAt : Instant
  status : String := "ACTIVE"
  currencyUnits : CurrencyUnits := standardCurrencyUnits
deriving DecidableEq

structure PortfolioState where
  account : Account
  cash : CashLedger := {}
  positions : Dict String Position := Dict.empty
  ledger : List Transaction := []
  events : List PortfolioEvent := []
  realizedPnl : CurrencyAmounts := {}
  commissionPaid : CurrencyAmounts := {}
  /-- Assets whose position was last priced by a fill rather than by the market. -/
  pendingMarks : SortedSet String := SortedSet.empty
  unsettled : List PendingSettlement := []
deriving DecidableEq

def PortfolioState.opened (account : Account) : PortfolioState := { account := account }

/-! ## What is read back -/

variable {amount : Decimal} {currency : String}

namespace CashLedger

variable (cash : CashLedger)

theorem balance_deposit (amount : Decimal) (currency c : String) :
    (cash.deposit amount currency).balance c =
      cash.balance c + if c = currency then amount else 0 := by
  by_cases h : c = currency
  · subst h
    simp [balance, deposit]
  · simp [balance, deposit, Dict.get?_set_of_ne _ _ h, h]

theorem balance_settle (amount : Decimal) (currency c : String) :
    (cash.settle amount currency).balance c =
      cash.balance c + if c = currency then amount else 0 :=
  cash.balance_deposit amount currency c

theorem balance_withdraw {cash' : CashLedger} (h : cash.withdraw amount currency = .ok cash')
    (c : String) : cash'.balance c = cash.balance c + if c = currency then -amount else 0 := by
  simp only [withdraw, bind_ok, require_ok, pure_ok] at h
  obtain ⟨-, -, rfl⟩ := h
  by_cases hc : c = currency
  · subst hc
    simp [balance, sub_eq_add_neg]
  · simp [balance, Dict.get?_set_of_ne _ _ hc, hc]

end CashLedger

theorem CurrencyAmounts.of_add {a b : CurrencyAmounts} (h : a.add amount currency = .ok b)
    (c : String) : b.of c = a.of c + if c = currency then amount else 0 := by
  simp only [add, bind_ok, require_ok, pure_ok] at h
  obtain ⟨-, -, rfl⟩ := h
  by_cases hc : c = currency
  · subst hc
    simp [of]
  · simp [of, Dict.get?_set_of_ne _ _ hc, hc]

theorem money_ok {units : CurrencyUnits} {amount m : Decimal} :
    money units amount currency = .ok m ↔
      ∃ n, units.minorUnits currency = some n ∧ m = quantize n amount := by
  rw [money, orRefuse_ok, toMoney_eq_some]

theorem FxRates.convert_ok {rates : FxRates} {base quote : String} {asOf : Option Instant}
    {units : CurrencyUnits} {c : FxConversion}
    (h : rates.convert amount base quote asOf (some units) = .ok c) :
    ∃ x, money units x quote = .ok c.converted := by
  simp only [convert, Option.getD_some] at h
  split_ifs at h
  · simp only [bind_ok, pure_ok] at h
    obtain ⟨m, hm, rfl⟩ := h
    exact ⟨_, hm⟩
  · simp only [bind_ok, pure_ok] at h
    obtain ⟨rate, -, m, hm, rfl⟩ := h
    exact ⟨_, hm⟩

end AlphaLab
