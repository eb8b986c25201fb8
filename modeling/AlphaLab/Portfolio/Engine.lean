/-
  The portfolio engine (`portfolio/engine.py`): deposits and withdrawals,
  conversions, fills, marks, accruals, cash flows and splits.

  Every operation takes a state to the next one or refuses, leaving nothing
  changed.  A transaction's id is its position in the ledger.
-/
import AlphaLab.Portfolio.CorporateActions

namespace AlphaLab

open Fallible

/-! ## Cash movements -/

/-- `amount` as money in `currency`, refusing what is not a real movement. -/
def positiveMoney (s : PortfolioState) (amount : Decimal) (currency what : String) :
    Except PortfolioRefusal Decimal := do
  require (¬ blank currency) (.withoutCurrency what)
  let m ← money s.account.currencyUnits amount currency
  require (0 < m) (.notPositive what amount currency m)
  pure m

/-- The ledger entry of cash moving alone, appended to `ledger`. -/
def bookCash (s : PortfolioState) (ledger : List Transaction) (type : TransactionType)
    (assetId : String) (quantity : Decimal) (currency : String) (timestamp : Instant)
    (metadata : Metadata := {}) : List Transaction :=
  ledger ++ [{
    transactionId := ledger.length
    timestamp := timestamp
    accountId := s.account.accountId
    type := type
    assetId := assetId
    quantity := quantity
    price := 1
    commission := 0
    currency := currency
    metadata := metadata }]

def PortfolioState.logged (s : PortfolioState) (timestamp : Instant) (body : EventBody) :
    List PortfolioEvent :=
  s.events ++ [⟨timestamp, s.account.accountId, body⟩]

def applyDeposit (s : PortfolioState) (amount : Decimal) (currency : String)
    (timestamp : Instant) : Except PortfolioRefusal PortfolioState := do
  let amount ← positiveMoney s amount currency "A deposit"
  pure { s with
    cash := s.cash.deposit amount currency
    ledger := bookCash s s.ledger .deposit "CASH" amount currency timestamp
    events := s.logged timestamp (.cashDeposited amount currency) }

def applyWithdrawal (s : PortfolioState) (amount : Decimal) (currency : String)
    (timestamp : Instant) : Except PortfolioRefusal PortfolioState := do
  let amount ← positiveMoney s amount currency "A withdrawal"
  let cash ← s.cash.withdraw amount currency
  pure { s with
    cash := cash
    ledger := bookCash s s.ledger .withdrawal "CASH" (-amount) currency timestamp
    events := s.logged timestamp (.cashWithdrawn amount currency) }

/-- The cash ledger after a conversion's debit: owed, or spent from cash held. -/
def debit (cash : CashLedger) (amount : Decimal) (currency : String) (financed : Bool) :
    Except PortfolioRefusal CashLedger :=
  if financed then pure (cash.settle (-amount) currency) else cash.withdraw amount currency

/-- `convert_cash`: the debit is the amount, the credit the rounded conversion. -/
def convertCash (s : PortfolioState) (amount : Decimal) (fromCurrency toCurrency : String)
    (rates : FxRates) (timestamp : Instant) (financed : Bool) :
    Except PortfolioRefusal (PortfolioState × FxConversion) := do
  require (0 < amount) (.conversionNotPositive amount)
  require (fromCurrency ≠ toCurrency) (.notAConversion fromCurrency)
  let units := s.account.currencyUnits
  let amount ← money units amount fromCurrency
  -- convert first: a refused rate must leave the ledger untouched
  let conversion ← rates.convert amount fromCurrency toCurrency (some timestamp) (some units)
  let cash ← debit s.cash amount fromCurrency financed
  let debited := bookCash s s.ledger .withdrawal "CASH" (-amount) fromCurrency timestamp
  pure ({ s with
    cash := cash.deposit conversion.converted toCurrency
    ledger := bookCash s debited .deposit "CASH" conversion.converted toCurrency timestamp
    events := s.logged timestamp (.cashConverted amount fromCurrency conversion.converted
      toCurrency conversion.rate.rate conversion.rate.asOf conversion.rate.source
      conversion.rate.derived) }, conversion)

/-! ## Fills -/

/-- The arguments of `apply_fill`. -/
structure Fill where
  assetId : String
  quantity : Decimal
  price : Decimal
  commission : Decimal
  timestamp : Instant
  currency : String
  economics : Option InstrumentEconomics := none
  finalSettlement : Bool := false
  settlesAt : Option Instant := none
  financed : Bool := false

/-- The economics a fill is booked by: a fully paid unit of one is none at all. -/
def Fill.declared (f : Fill) : Option InstrumentEconomics :=
  if f.economics = some cashEquity then none else f.economics

/-- Whether the fill's price is one its economics, or a final settlement, admit. -/
def Fill.admitted (f : Fill) : Bool :=
  (f.declared.getD cashEquity).admitsPrice f.price || (f.finalSettlement && decide (f.price = 0))

/-- A flat position in `currency`, or `none` where its minor unit is unknown. -/
def flatPosition (units : CurrencyUnits) (assetId : String) (price : Decimal) (currency : String)
    (timestamp : Instant) (economics : Option InstrumentEconomics) : Option Position :=
  match h : units.minorUnits currency with
  | none => none
  | some n => some {
      assetId := assetId
      quantity := 0
      averageCost := 0
      marketPrice := price
      realizedPnl := 0
      currency := currency
      lastUpdated := timestamp
      costBasis := none
      openedAt := none
      minorUnits := some n
      economics := economics
      minorUnits_le := by
        intro m hm
        exact Option.some.inj hm ▸ CurrencyUnits.minorUnits_le h
      unitKnown := by simp }

/-- The money a fill of `pos` trades: its notional, or nothing for one whose
    gains settle as cash. -/
def tradeValue (units : CurrencyUnits) (pos : Position) (f : Fill) :
    Except PortfolioRefusal Decimal :=
  if ¬ pos.paysNotional then pure 0
  else if pos.multiplier = 1 then
    orRefuse (notional units f.quantity f.price f.currency) (.unknownUnits f.currency)
  else money units (multiply (multiply |f.quantity| f.price) pos.multiplier) f.currency

/-- The cash a fill moves beside its settlement: proceeds or cost, less commission. -/
def cashImpact (quantity tradeValue commission : Decimal) : Decimal :=
  (if quantity < 0 then tradeValue else -tradeValue) - commission

/-- Whether a fill buys back a short: an obligation the account already carries. -/
def covering (pos : Position) (f : Fill) : Bool :=
  pos.quantity < 0 ∧ 0 < f.quantity ∧ f.quantity ≤ -pos.quantity

/-- The cash ledger after a fill's cash: a cost is spent from cash held, unless
    it buys back a short or is financed. -/
def fillCash (cash : CashLedger) (pos : Position) (f : Fill) (impact : Decimal) :
    Except PortfolioRefusal CashLedger :=
  if 0 < impact then pure (cash.deposit impact f.currency)
  else if impact < 0 ∧ (covering pos f ∨ f.financed) then pure (cash.settle impact f.currency)
  else if impact < 0 then cash.withdraw (-impact) f.currency
  else pure cash

/-- What the log records of a fill that takes `pos` to `newPos`. -/
def fillEvent (f : Fill) (pos newPos : Position) (pnl : Decimal) : EventBody :=
  if newPos.quantity = 0 then .positionClosed f.assetId f.price pnl
  else if pos.quantity = 0 then .positionOpened f.assetId f.quantity f.price
  else if (0 < pos.quantity ∧ 0 < f.quantity) ∨ (pos.quantity < 0 ∧ f.quantity < 0) then
    .positionIncreased f.assetId f.quantity f.price
  else .positionReduced f.assetId f.quantity f.price pnl

/-- The ledger entry of a fill: settlement metadata only where it settles later. -/
def fillTransaction (s : PortfolioState) (f : Fill) (commission settledCash : Decimal) :
    Transaction where
  transactionId := s.ledger.length
  timestamp := f.timestamp
  accountId := s.account.accountId
  type := if 0 < f.quantity then .buy else .sell
  assetId := f.assetId
  quantity := f.quantity
  price := f.price
  commission := commission
  currency := f.currency
  metadata := match f.settlesAt with
    | none => {}
    | some settlesAt => { settlesAt := some settlesAt, settlementCash := some settledCash }

def fillPending (tx : Transaction) (f : Fill) (settledCash : Decimal) :
    Option PendingSettlement :=
  f.settlesAt.map fun settlesAt =>
    { transactionId := tx.transactionId
      assetId := f.assetId
      currency := f.currency
      cash := settledCash
      quantity := f.quantity
      tradedAt := f.timestamp
      settlesAt := settlesAt }

def fillPosition (s : PortfolioState) (f : Fill) : Except PortfolioRefusal Position :=
  match s.positions.get? f.assetId with
  | some held => pure held
  | none => orRefuse (flatPosition s.account.currencyUnits f.assetId f.price f.currency
      f.timestamp f.declared) (.unknownUnits f.currency)

/-- `apply_fill`: one position update, one cash movement, one ledger transaction
    and one event. -/
def applyFill (s : PortfolioState) (f : Fill) : Except PortfolioRefusal PortfolioState := do
  require (¬ blank f.currency) .fillWithoutCurrency
  require f.admitted (.priceNotAdmitted f.assetId f.price)
  require (f.quantity ≠ 0) .zeroQuantity
  let units := s.account.currencyUnits
  let commission ← money units f.commission f.currency
  let pos ← fillPosition s f
  require (pos.currency = f.currency) (.otherCurrency f.assetId pos.currency f.currency)
  require (pos.economics = f.declared) (.otherEconomics f.assetId)
  let value ← tradeValue units pos f
  let (newPos, pnl) := pos.applyFill f.quantity f.price f.timestamp
  -- a position whose gains settle as cash: its P&L is the cash, owed either way
  let settled := if ¬ pos.paysNotional ∧ pnl ≠ 0 then s.cash.settle pnl f.currency else s.cash
  let impact := cashImpact f.quantity value commission
  let cash ← fillCash settled pos f impact
  let settledCash := impact + (if ¬ pos.paysNotional then pnl else 0)
  let tx := fillTransaction s f commission settledCash
  let realized ← s.realizedPnl.add pnl f.currency
  let commissions ← s.commissionPaid.add commission f.currency
  let closes : Bool := newPos.quantity = 0
  pure { s with
    cash := cash
    positions := if closes then s.positions.delete f.assetId else s.positions.set f.assetId newPos
    ledger := s.ledger ++ [tx]
    events := s.logged f.timestamp (fillEvent f pos newPos pnl)
    realizedPnl := realized
    commissionPaid := commissions
    pendingMarks :=
      if closes then s.pendingMarks.remove (· = f.assetId) else s.pendingMarks.insert f.assetId
    unsettled := settlePending s.unsettled f.timestamp (fillPending tx f settledCash) }

/-! ## Marks -/

structure Marking where
  positions : Dict String Position
  cash : CashLedger
  realizedPnl : CurrencyAmounts
  ledger : List Transaction
  marked : Dict String Decimal
  settled : List EventBody

def variationTransaction (s : PortfolioState) (ledger : List Transaction) (asset : String)
    (position : Position) (price : Decimal) (timestamp : Instant) : Transaction where
  transactionId := ledger.length
  timestamp := timestamp
  accountId := s.account.accountId
  type := .variationMargin
  assetId := asset
  quantity := position.quantity
  price := price
  commission := 0
  currency := position.currency

def markOne (s : PortfolioState) (prices : Dict String Decimal) (timestamp : Instant)
    (m : Marking) (held : String × Position) : Except PortfolioRefusal Marking :=
  let (asset, position) := held
  match prices.get? asset with
  | none => pure m
  | some price => do
    require ((position.economics.getD cashEquity).admitsPrice price) (.markNotAdmitted asset price)
    let (after, amount) := position.settle price timestamp
    let m := { m with
      positions := m.positions.set asset after
      marked := m.marked.set asset price }
    if amount = 0 then pure m
    else do
      let realized ← m.realizedPnl.add amount position.currency
      pure { m with
        cash := m.cash.settle amount position.currency
        realizedPnl := realized
        ledger := m.ledger ++ [variationTransaction s m.ledger asset position price timestamp]
        settled := m.settled ++ [.variationSettled asset price amount position.currency] }

/-- `_marked`: the state with each of `held` marked at its price, and settled. -/
def marked (s : PortfolioState) (held : List (String × Position)) (prices : Dict String Decimal)
    (timestamp : Instant) : Except PortfolioRefusal PortfolioState := do
  let m ← held.foldlM (markOne s prices timestamp)
    ⟨s.positions, s.cash, s.realizedPnl, s.ledger, Dict.empty, []⟩
  if m.marked.entries = [] then pure s
  else pure { s with
    positions := m.positions
    pendingMarks := s.pendingMarks.remove (· ∈ m.marked.keys)
    cash := m.cash
    realizedPnl := m.realizedPnl
    ledger := m.ledger
    events := s.logged timestamp (.marketValueUpdated m.marked) ++
      m.settled.map fun body => ⟨timestamp, s.account.accountId, body⟩ }

def updateMarketPrices (s : PortfolioState) (prices : Dict String Decimal) (timestamp : Instant) :
    Except PortfolioRefusal PortfolioState :=
  marked s s.positions.entries prices timestamp

/-- `mark_changed`: `changed` and every position a fill priced since, re-marked. -/
def markChanged (s : PortfolioState) (prices : Dict String Decimal) (timestamp : Instant)
    (changed : Option String) : Except PortfolioRefusal PortfolioState :=
  let assets := (changed.elim s.pendingMarks s.pendingMarks.insert).members
  if assets = [] then pure s
  else marked s (assets.filterMap fun asset => (s.positions.get? asset).map (asset, ·)) prices
    timestamp

/-- `record_accrual`: one day's accrued interest or fee, moving no cash. -/
def recordAccrual (s : PortfolioState) (key : String) (amount : Decimal) (currency : String)
    (timestamp : Instant) : PortfolioState :=
  { s with
    ledger := bookCash s s.ledger .accrual "CASH" amount currency timestamp
      { accrues := some key } }

def closeAccrual (s : PortfolioState) (key : String) (amount : Decimal) (currency : String)
    (timestamp : Instant) : PortfolioState :=
  { s with
    ledger := bookCash s s.ledger .accrual "CASH" (-amount) currency timestamp
      { accrues := some key, accrualClosed := true } }

/-- `apply_cash_flow`: cash and realized P&L move by the signed amount. -/
def applyCashFlow (s : PortfolioState) (flow : CashFlow) (timestamp : Instant) :
    Except PortfolioRefusal PortfolioState := do
  let amount ← money s.account.currencyUnits flow.amount flow.currency
  require (amount ≠ 0) (.nothingToBook flow.kind.value flow.amount flow.currency)
  let realized ← s.realizedPnl.add amount flow.currency
  pure { s with
    cash := s.cash.settle amount flow.currency
    ledger := bookCash s s.ledger flow.kind.transactionType
      (if flow.assetId = "" then "CASH" else flow.assetId) amount flow.currency timestamp
    events := s.logged timestamp (.cashFlowBooked flow.kind.value flow.assetId amount
      flow.currency flow.reference)
    realizedPnl := realized }

def applySplit (s : PortfolioState) (split : Split) (timestamp : Instant) :
    Except PortfolioRefusal PortfolioState := do
  let position ← orRefuse (s.positions.get? split.assetId) (.noPositionToSplit split.assetId)
  let after := position.split split.ratio timestamp
  pure { s with
    positions := s.positions.set split.assetId after
    events := s.logged timestamp (.positionSplit split.assetId split.ratio after.quantity) }

end AlphaLab
