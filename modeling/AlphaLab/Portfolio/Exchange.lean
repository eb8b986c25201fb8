/-
  Corporate actions that change what is held (`portfolio/engine.py`): an
  exchange of a holding, and the amendments of the payments and deliveries it
  leaves owed.

  * `applyExchange` books an exchange as its caller apportioned it;
  * `amendPayment` and `amendDelivery` book an issuer's later word, re-summing
    the ledger's chain of transactions each time.
-/
import AlphaLab.Portfolio.Engine

namespace AlphaLab

open Fallible

/-! ## Exchanges -/

/-- The arguments of `PortfolioEngine.apply_exchange`. -/
structure ExchangeBooking where
  assetId : String
  received : List ExchangedHolding
  retainedBasis : Option Decimal
  consideration : Dict String Decimal
  realized : Decimal
  timestamp : Instant
  reference : String := ""
  paysAt : Option Instant := none
  kept : Option (Decimal × Decimal) := none
  delivers : Option (Dict String (Instant × List (String × Decimal))) := none
  convention : Option DeliveryConvention := none
  effectiveAt : Option Instant := none

/-- One received leg booked: opened at the basis it carries, or added to a
    holding on the same side. -/
def receiveLeg (units : CurrencyUnits) (timestamp : Instant) (positions : Dict String Position)
    (leg : ExchangedHolding) : Except PortfolioRefusal (Dict String Position) := do
  let basis ← money units leg.basis leg.currency
  match (positions.get? leg.assetId).filter (·.quantity ≠ 0) with
  | some existing => do
    require (decide (0 < existing.quantity) = decide (0 < leg.quantity))
      (.oppositeHolding leg.assetId leg.quantity existing.quantity)
    pure (positions.set leg.assetId (existing.rebased (existing.quantity + leg.quantity)
      (existing.basis + basis) existing.realizedPnl existing.marketPrice timestamp))
  | none => do
    let flat ← orRefuse (flatPosition units leg.assetId leg.price leg.currency timestamp
      leg.economics) (.unknownUnits leg.currency)
    pure (positions.set leg.assetId
      (flat.rebasedAt leg.quantity basis 0 leg.price timestamp (some timestamp)))

def exchangedHolding (units : CurrencyUnits) (x : ExchangeBooking) (held : Position)
    (positions : Dict String Position) : Except PortfolioRefusal (Dict String Position) :=
  let (keptUnits, keptBasis) := x.kept.getD (0, 0)
  match x.retainedBasis with
  | none =>
    if keptUnits = 0 then pure (positions.delete x.assetId)
    else pure (positions.set x.assetId (held.rebased keptUnits (keptBasis + 0) held.realizedPnl
      held.marketPrice x.timestamp))
  | some retainedBasis => do
    let retained ← money units retainedBasis held.currency
    pure (positions.set x.assetId (held.rebased held.quantity (keptBasis + retained)
      held.realizedPnl held.marketPrice x.timestamp))

def ExchangeBooking.deferred (x : ExchangeBooking) : Option Instant :=
  x.paysAt.filter (x.timestamp < ·)

/-- `reference`, where there is one. -/
def named (reference : String) : Option String := if reference = "" then none else some reference

/-- What an exchange's payments and deliveries have built so far. -/
structure Consideration where
  cash : CashLedger
  ledger : List Transaction
  unsettled : List PendingSettlement
  moved : Dict String Decimal

def paymentTransaction (s : PortfolioState) (x : ExchangeBooking) (ledger : List Transaction)
    (currency : String) (amount : Decimal) : Transaction where
  transactionId := ledger.length
  timestamp := x.timestamp
  accountId := s.account.accountId
  type := .exchange
  assetId := x.assetId
  quantity := amount
  price := 1
  commission := 0
  currency := currency
  metadata := {
    exchange := named x.reference
    settlesAt := x.deferred
    settlementCash := x.deferred.map fun _ => amount }

/-- One currency's consideration moved, pending until the payment's instant. -/
def payOne (s : PortfolioState) (x : ExchangeBooking) (m : Consideration)
    (entry : String × Decimal) : Except PortfolioRefusal Consideration := do
  let (currency, amount) := entry
  let amount ← money s.account.currencyUnits amount currency
  if amount = 0 then pure m
  else
    let tx := paymentTransaction s x m.ledger currency amount
    pure { m with
      cash := m.cash.settle amount currency
      ledger := m.ledger ++ [tx]
      moved := m.moved.set currency amount
      unsettled := match x.deferred with
        | none => m.unsettled
        | some paysAt => settlePending m.unsettled x.timestamp (some {
            transactionId := tx.transactionId
            assetId := x.assetId
            currency := currency
            cash := amount
            quantity := 0
            tradedAt := x.timestamp
            settlesAt := paysAt }) }

/-- When and to whom `x` delivers a leg after its instant, if it does. -/
def ExchangeBooking.planned (x : ExchangeBooking) (leg : ExchangedHolding) :
    Option (Instant × List (String × Decimal)) :=
  (x.delivers.bind (·.get? leg.assetId)).filter (x.timestamp < ·.1)

def deliveryTransaction (s : PortfolioState) (x : ExchangeBooking) (ledger : List Transaction)
    (leg : ExchangedHolding) (basis : Decimal) (at_ : Instant) (parts : List (String × Decimal)) :
    Transaction where
  transactionId := ledger.length
  timestamp := x.timestamp
  accountId := s.account.accountId
  type := .exchange
  assetId := leg.assetId
  quantity := 0
  price := 0
  commission := 0
  currency := leg.currency
  metadata := {
    settlesAt := some at_
    settlementCash := some 0
    delivers := some leg.quantity
    deliveryOf := some ⟨x.assetId, x.effectiveAt.getD x.timestamp⟩
    deliveryParts := some (parts.insertionSort fun a b => a.1 ≤ b.1)
    deliveryBasis := some basis
    deliveryTerms := some (x.convention.getD {})
    exchange := named x.reference }

/-- One leg's units owed, where it is delivered after the exchange's instant. -/
def deliverOne (s : PortfolioState) (x : ExchangeBooking) (m : Consideration)
    (leg : ExchangedHolding) : Except PortfolioRefusal Consideration := do
  match x.planned leg with
  | none => pure m
  | some (at_, parts) => do
    let basis ← money s.account.currencyUnits leg.basis leg.currency
    let tx := deliveryTransaction s x m.ledger leg basis at_ parts
    pure { m with
      ledger := m.ledger ++ [tx]
      unsettled := settlePending m.unsettled x.timestamp (some (deliveryEntry tx at_)) }

/-- Realized P&L with `amount`, left as it is where there is none. -/
def realize (realized : CurrencyAmounts) (amount : Decimal) (currency : String) :
    Except PortfolioRefusal CurrencyAmounts :=
  if amount = 0 then pure realized else realized.add amount currency

/-- `apply_exchange`: the holding exchanged for others and cash, as computed. -/
def applyExchange (s : PortfolioState) (x : ExchangeBooking) :
    Except PortfolioRefusal PortfolioState := do
  let held ← orRefuse ((s.positions.get? x.assetId).filter (·.quantity ≠ 0))
    (.noPositionToExchange x.assetId)
  let units := s.account.currencyUnits
  let received ← x.received.foldlM (receiveLeg units x.timestamp) s.positions
  let positions ← exchangedHolding units x held received
  let paid ← (x.consideration.entries.insertionSort fun a b => a.1 ≤ b.1).foldlM (payOne s x)
    ⟨s.cash, s.ledger, s.unsettled, Dict.empty⟩
  let delivered ← x.received.foldlM (deliverOne s x) paid
  let gain ← money units x.realized held.currency
  let realized ← realize s.realizedPnl gain held.currency
  pure { s with
    positions := positions
    cash := delivered.cash
    ledger := delivered.ledger
    unsettled := delivered.unsettled
    events := s.logged x.timestamp (.positionExchanged x.assetId
      (held.quantity - (x.kept.getD (0, 0)).1)
      (Dict.ofList (x.received.map fun leg => (leg.assetId, leg.quantity))) delivered.moved gain
      x.retainedBasis.isSome x.reference)
    realizedPnl := realized }

/-! ## Amendments of a payment -/

/-- The arguments of `amend_payment`. -/
structure PaymentAmendment where
  holding : String
  effectiveAt : Instant
  currency : String
  change : PaymentChange
  timestamp : Instant
  units : Option Decimal := none
  perUnit : Option Decimal := none
  replacementCurrency : Option String := none
  paysAt : Option Instant := none
  reference : String := ""

def PaymentAmendment.later (a : PaymentAmendment) : Option Instant :=
  a.paysAt.filter (a.timestamp < ·)

def PaymentChange.terminal : PaymentChange → Bool
  | failed | reversed => true
  | _ => false

def amendmentTransaction (s : PortfolioState) (a : PaymentAmendment) (ledger : List Transaction)
    (amount : Decimal) (currency : String) (extra : Metadata) : Transaction where
  transactionId := ledger.length
  timestamp := a.timestamp
  accountId := s.account.accountId
  type := .exchange
  assetId := a.holding
  quantity := amount
  price := 1
  commission := 0
  currency := currency
  metadata := { extra with
    entitlement := some ⟨a.holding, a.effectiveAt⟩
    paymentChange := some a.change
    exchange := named a.reference }

def waitingOn (s : PortfolioState) (ids : List TransactionId) : List PendingSettlement :=
  s.unsettled.filter (·.transactionId ∈ ids)

/-- What an amendment moved: the parts of the state it changes, what it left
    owed and until when, and the replacement it opened. -/
structure Amended where
  cash : CashLedger
  ledger : List Transaction
  unsettled : List PendingSettlement
  realizedPnl : CurrencyAmounts
  owedAfter : Decimal
  settlesAt : Option Instant := none
  replacement : Decimal := 0
  replacedIn : String := ""

/-- `DELAYED`: every part awaited is pending until the later instant. -/
def delayPayment (s : PortfolioState) (a : PaymentAmendment) (chain : List Transaction)
    (owed : Decimal) : Except PortfolioRefusal Amended := do
  let paysAt ← orRefuse a.later (.delayNotLater a.timestamp a.paysAt)
  require (owed ≠ 0) (.owesNothing a.holding a.currency)
  let awaited := (chain.filter (·.quantity ≠ 0)).map (·.transactionId)
  let tx := amendmentTransaction s a s.ledger 0 a.currency
    { affects := some awaited, settlesAt := some paysAt }
  pure {
    cash := s.cash
    ledger := s.ledger ++ [tx]
    unsettled := amendPending (settlePending s.unsettled a.timestamp) tx chain
    realizedPnl := s.realizedPnl
    owedAfter := owed
    settlesAt := some paysAt }

def writeOff (s : PortfolioState) (a : PaymentAmendment) (chain : List Transaction)
    (owed : Decimal) : Except PortfolioRefusal Amended := do
  let tx := amendmentTransaction s a s.ledger (-owed) a.currency
    { affects := some (chain.map (·.transactionId)) }
  let realized ← s.realizedPnl.add (-owed) a.currency
  pure {
    cash := s.cash.settle (-owed) a.currency
    ledger := s.ledger ++ [tx]
    unsettled := amendPending s.unsettled tx chain
    realizedPnl := realized
    owedAfter := 0 }

/-- Cash an amendment adds in `currency`, pending until `settles` where it is later. -/
def owePayment (s : PortfolioState) (a : PaymentAmendment) (m : Amended) (amount : Decimal)
    (currency : String) (perUnit : Decimal) (settles : Option Instant) :
    Except PortfolioRefusal Amended := do
  let tx := amendmentTransaction s a m.ledger amount currency
    { perUnit := some perUnit, settlesAt := settles, settlementCash := settles.map fun _ => amount }
  let realized ← m.realizedPnl.add amount currency
  pure { m with
    cash := m.cash.settle amount currency
    ledger := m.ledger ++ [tx]
    unsettled := match settles with
      | none => m.unsettled
      | some settlesAt => settlePending m.unsettled a.timestamp (some {
          transactionId := tx.transactionId
          assetId := a.holding
          currency := currency
          cash := amount
          quantity := 0
          tradedAt := a.timestamp
          settlesAt := settlesAt })
    realizedPnl := realized
    settlesAt := settles }

/-- `CORRECTED`: the difference moves, pending with the rest of the payment. -/
def correctPayment (s : PortfolioState) (a : PaymentAmendment) (waiting : List PendingSettlement)
    (owed : Decimal) : Except PortfolioRefusal Amended := do
  let units ← orRefuse a.units (.statesUnits a.change)
  let perUnit ← orRefuse a.perUnit (.statesUnits a.change)
  let owedAfter ← money s.account.currencyUnits (multiply units perUnit) a.currency
  let settles := (waiting.map (·.settlesAt)).max?.or a.later
  owePayment s a ⟨s.cash, s.ledger, s.unsettled, s.realizedPnl, owedAfter, none, 0, ""⟩
    (owedAfter - owed) a.currency perUnit settles

/-- `REPLACED`: what was owed is written off, the replacement owed in its place. -/
def replacePayment (s : PortfolioState) (a : PaymentAmendment) (chain : List Transaction)
    (owed : Decimal) : Except PortfolioRefusal Amended := do
  let units ← orRefuse a.units (.statesUnits a.change)
  let perUnit ← orRefuse a.perUnit (.statesUnits a.change)
  let into ← orRefuse (a.replacementCurrency.filter (· ≠ a.currency)) .replacementNamesCurrency
  let out ← writeOff s a chain owed
  let replacement ← money s.account.currencyUnits (multiply units perUnit) into
  owePayment s a { out with replacement := replacement, replacedIn := into } replacement into
    perUnit a.later

def changePayment (s : PortfolioState) (a : PaymentAmendment) (chain : List Transaction)
    (owed : Decimal) (waiting : List PendingSettlement) : Except PortfolioRefusal Amended :=
  match a.change with
  | .delayed => delayPayment s a chain owed
  | .failed => writeOff s a chain owed
  | .reversed => do
    require (waiting = []) (.notYetPaid a.holding a.currency)
    writeOff s a chain owed
  | .corrected => correctPayment s a waiting owed
  | .replaced => replacePayment s a chain owed

/-- `amend_payment`: an issuer's later word on a corporate action's payment. -/
def amendPayment (s : PortfolioState) (a : PaymentAmendment) :
    Except PortfolioRefusal PortfolioState := do
  let chain := paymentChain s.ledger a.holding a.effectiveAt a.currency
  if chain = [] then do
    require (∀ c ∈ s.cash.balances.keys, paymentChain s.ledger a.holding a.effectiveAt c = [])
      (.paidNothing a.holding a.effectiveAt a.currency)
    pure s
  else do
    match chain.find? (·.metadata.paymentChange.any (·.terminal)) with
    | some done => .error (.paymentClosed a.holding a.currency
        (done.metadata.paymentChange.getD .failed) done.timestamp)
    | none => do
      let owed := (chain.map (·.quantity)).sum
      let waiting := (waitingOn s (chain.map (·.transactionId))).filter (·.pendingAt a.timestamp)
      let m ← changePayment s a chain owed waiting
      pure { s with
        cash := m.cash
        ledger := m.ledger
        unsettled := m.unsettled
        realizedPnl := m.realizedPnl
        events := s.logged a.timestamp (.paymentAmended a.holding a.effectiveAt a.currency
          a.change owed m.owedAfter m.settlesAt m.replacedIn m.replacement a.reference) }

/-! ## Amendments of a delivery -/

/-- The arguments of `amend_delivery`. -/
structure DeliveryAmendment where
  holding : String
  effectiveAt : Instant
  assetId : String
  change : PaymentChange
  timestamp : Instant
  deliversAt : Option Instant := none
  units : Option Decimal := none
  reference : String := ""

/-- `_share_of`: `total * part / whole`. -/
def shareOf (total part whole : Decimal) : Decimal :=
  if whole = 0 then 0 else divide (multiply total part) whole

/-- Whether `transaction` booked or amended a leg's delivery. -/
def inDeliveryChain (a : DeliveryAmendment) (transaction : Transaction) : Bool :=
  decide (transaction.type = .exchange) && decide (transaction.assetId = a.assetId) &&
    decide (transaction.metadata.deliveryOf = some ⟨a.holding, a.effectiveAt⟩)

structure Delivery where
  chain : List Transaction
  original : Transaction
  owed : Decimal
  basis : Decimal
  unitIds : List TransactionId

def deliveryOf (s : PortfolioState) (a : DeliveryAmendment) : Option Delivery :=
  let chain := s.ledger.filter (inDeliveryChain a)
  (chain.find? (·.metadata.deliveryParts.isSome)).map fun original =>
    { chain := chain
      original := original
      owed := (chain.filterMap (·.metadata.delivers)).sum
      basis := (chain.filterMap (·.metadata.deliveryBasis)).sum
      unitIds := (chain.filter (·.metadata.delivers.isSome)).map (·.transactionId) }

def deliveryAmendmentTransaction (s : PortfolioState) (a : DeliveryAmendment) (d : Delivery)
    (extra : Metadata) : Transaction where
  transactionId := s.ledger.length
  timestamp := a.timestamp
  accountId := s.account.accountId
  type := .exchange
  assetId := a.assetId
  quantity := 0
  price := 0
  commission := 0
  currency := d.original.currency
  metadata := { extra with
    deliveryOf := some ⟨a.holding, a.effectiveAt⟩
    paymentChange := some a.change
    exchange := named a.reference }

/-- What an amendment does to a delivery: its transaction, the index, the units
    written off, and when what is owed now is delivered. -/
structure DeliveryChange where
  transaction : Transaction
  unsettled : List PendingSettlement
  writtenOff : Decimal
  settlesAt : Option Instant

/-- `DELAYED`, `CORRECTED` or `FAILED` of a delivery, as its ledger entry books it. -/
def changeDelivery (s : PortfolioState) (a : DeliveryAmendment) (d : Delivery) :
    Except PortfolioRefusal DeliveryChange :=
  match a.change with
  | .delayed => do
    let deliversAt ← orRefuse (a.deliversAt.filter (a.timestamp < ·))
      (.delayNotLater a.timestamp a.deliversAt)
    let tx := deliveryAmendmentTransaction s a d
      { affects := some d.unitIds, settlesAt := some deliversAt }
    pure ⟨tx, amendPending (settlePending s.unsettled a.timestamp) tx d.chain, 0, some deliversAt⟩
  | .corrected => do
    let units ← orRefuse a.units (.correctionNotFewer d.owed a.units)
    require (|units| < |d.owed| ∧ (units = 0 ∨ (decide (0 < units) = decide (0 < d.owed))))
      (.correctionNotFewer d.owed a.units)
    let writtenOff := d.owed - units
    let settles := ((waitingOn s d.unitIds).map (·.settlesAt)).max?.getD a.timestamp
    let tx := deliveryAmendmentTransaction s a d {
      delivers := some (-writtenOff)
      deliveryTerms := some (d.original.metadata.deliveryTerms.getD {})
      deliveryBasis := some (-shareOf d.basis writtenOff d.owed)
      settlesAt := some settles
      settlementCash := some 0 }
    let unsettled := if a.timestamp < settles
      then settlePending s.unsettled a.timestamp (some (deliveryEntry tx settles))
      else s.unsettled
    pure ⟨tx, unsettled, writtenOff, some settles⟩
  | .failed => do
    let tx := deliveryAmendmentTransaction s a d { affects := some d.unitIds }
    pure ⟨tx, amendPending s.unsettled tx d.chain, d.owed, none⟩
  | .reversed | .replaced => .error (.notADeliveryChange a.change)

def writeOffUnits (s : PortfolioState) (a : DeliveryAmendment) (writtenOff lost : Decimal) :
    Dict String Position :=
  match s.positions.get? a.assetId with
  | none => s.positions
  | some position =>
    let remaining := position.quantity - writtenOff
    if remaining = 0 then s.positions.delete a.assetId
    else s.positions.set a.assetId (position.rebased remaining (position.basis - lost)
      position.realizedPnl position.marketPrice a.timestamp)

def lostParts (d : Delivery) (writtenOff : Decimal) : List (String × Decimal) :=
  ((d.original.metadata.deliveryParts.getD []).map fun (sid, part) =>
    (sid, if d.owed = 0 then 0 else divide (multiply part writtenOff) d.owed)).filter (·.2 ≠ 0)

def realizeLost (realized : CurrencyAmounts) (writtenOff lost : Decimal) (currency : String) :
    Except PortfolioRefusal CurrencyAmounts :=
  if writtenOff = 0 then pure realized else realized.add (-lost) currency

/-- `amend_delivery`: a later word on units an exchange delivers after its
    instant, and each strategy's units written off. -/
def amendDelivery (s : PortfolioState) (a : DeliveryAmendment) :
    Except PortfolioRefusal (PortfolioState × List (String × Decimal)) :=
  match deliveryOf s a with
  | none => pure (s, [])
  | some d => do
    require (∀ t ∈ d.chain, t.metadata.paymentChange ≠ some .failed)
      (.deliveryFailed a.assetId a.holding)
    let c ← changeDelivery s a d
    let lost := shareOf d.basis c.writtenOff d.owed
    let realized ← realizeLost s.realizedPnl c.writtenOff lost d.original.currency
    pure ({ s with
      positions := if c.writtenOff = 0 then s.positions else writeOffUnits s a c.writtenOff lost
      ledger := s.ledger ++ [c.transaction]
      unsettled := c.unsettled
      realizedPnl := realized
      events := s.logged a.timestamp (.deliveryAmended a.holding a.effectiveAt a.assetId a.change
        d.owed (d.owed - c.writtenOff) c.settlesAt a.reference) }, lostParts d c.writtenOff)

end AlphaLab
