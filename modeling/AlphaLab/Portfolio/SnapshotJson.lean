/-
  A snapshot of the book as a JSON payload (`portfolio/snapshot.py`,
  `conventions/economics.py`): what `serialize` writes and `from_primitives`
  reads.

  * `PortfolioSnapshot.toJson` is the payload, its mappings in the order of
    their keys; `fromPrimitives` brings a payload to the current version and
    reads it field by field.
  * `PortfolioSnapshot.Same` is equality up to the order of the mappings, which
    Python's equality of dictionaries ignores.
  * `fromPrimitives_toJson`: a captured snapshot is read back iff its pending
    marks are held; every other field reads back as it was written.
-/
import AlphaLab.Persistence.Decode
import AlphaLab.Portfolio.Snapshot

namespace AlphaLab

open Fallible

abbrev Payload := Json Metadata

abbrev Fields := List (String × Payload)

/-- The field `key` of the object at `where_`. -/
def readField {α : Type} (read : Payload → String → Except DecodeError α) (payload : Fields)
    (where_ key : String) : Except DecodeError α := do
  let value ← requireField payload key
  read value (where_ ++ "." ++ key)

def CurrencyUnits.toJson (units : CurrencyUnits) : Payload :=
  entriesToJson (fun n : ℕ => .int n) units.declared

def asUnits (value : Payload) (field : String) : Except DecodeError ℕ := do
  let n ← asInt value field
  orRefuse n.toNat? (.invalid field)

/-- `_currency_units` -/
def readCurrencyUnits (value : Payload) (where_ : String) : Except DecodeError CurrencyUnits := do
  let declared ← asEntries asUnits value where_
  if h : ∀ e ∈ declared.entries, e.2 ≤ maxMinorUnits ∧ ∀ m ∈ iso4217MinorUnits e.1, e.2 = m then
    .ok {
      declared := declared
      bounded := fun _ _ hn => (h _ ((declared.get?_eq_some).mp hn)).1
      standard := fun _ _ m hn hm => (h _ ((declared.get?_eq_some).mp hn)).2 m hm }
  else .error (.invalid where_)

def Account.toJson (a : Account) : Payload :=
  .obj [
    ("account_id", .str a.accountId),
    ("base_currency", .str a.baseCurrency),
    ("name", .str a.name),
    ("created_at", .float a.createdAt),
    ("status", .str a.status),
    ("currency_units", a.currencyUnits.toJson)]

/-- `_account` -/
def readAccount (value : Payload) : Except DecodeError Account := do
  let payload ← asObject value "account"
  let accountId ← readField asStr payload "account" "account_id"
  let baseCurrency ← readField asStr payload "account" "base_currency"
  let name ← readField asStr payload "account" "name"
  let createdAt ← readField asFloat payload "account" "created_at"
  let status ← readField asStr payload "account" "status"
  let currencyUnits ← readField readCurrencyUnits payload "account" "currency_units"
  pure { accountId, baseCurrency, name, createdAt, status, currencyUnits }

/-! ## Positions -/

def SettlementModel.text : SettlementModel → String
  | cashEquity => "cash_equity"
  | futuresVariation => "futures_variation"
  | optionPremium => "option_premium"
  | perpetual => "perpetual"

def settlementModels : List (String × SettlementModel) :=
  [.cashEquity, .futuresVariation, .optionPremium, .perpetual].map fun m => (m.text, m)

def LotSpecification.toJson (lot : LotSpecification) : Payload :=
  .obj [("lot_size", .decimal lot.lotSize), ("minimum_quantity", .decimal lot.minimumQuantity)]

def InstrumentEconomics.toJson (e : InstrumentEconomics) : Payload :=
  .obj [
    ("multiplier", .decimal e.multiplier),
    ("settlement", .str e.settlement.text),
    ("lot", optionToJson LotSpecification.toJson e.lot),
    ("minimum_notional", optionToJson .decimal e.minimumNotional),
    ("allows_negative_prices", .bool e.allowsNegativePrices)]

/-- `_decimal`: a decimal written as text, or an integer. -/
def textDecimal (value : Payload) (where_ : String) : Except DecodeError Decimal :=
  match value with
  | .decimal x => .ok x
  | .int n => .ok n
  | _ => .error (.invalid where_)

def readLot (value : Payload) (where_ : String) : Except DecodeError LotSpecification := do
  let fields ← asObject value where_
  require (∀ e ∈ fields, e.1 ∈ ["lot_size", "minimum_quantity"]) (.invalid where_)
  let lotSize ← readField textDecimal fields where_ "lot_size"
  let minimumQuantity ← readField textDecimal fields where_ "minimum_quantity"
  if h : 0 < lotSize ∧ 0 < minimumQuantity ∧ Rounding.OnGrid lotSize minimumQuantity then
    .ok ⟨lotSize, minimumQuantity, h.1, h.2.1, h.2.2⟩
  else .error (.invalid where_)

/-- `economics_from_primitives` -/
def readEconomics (value : Payload) (where_ : String) : Except DecodeError InstrumentEconomics := do
  let fields ← asObject value where_
  let lot ← readField (asOptional readLot) fields where_ "lot"
  let settlement ← readField (asEnum "SettlementModel" settlementModels) fields where_ "settlement"
  let multiplier ← readField textDecimal fields where_ "multiplier"
  let minimumNotional ← readField (asOptional textDecimal) fields where_ "minimum_notional"
  let allowsNegativePrices ← readField asBool fields where_ "allows_negative_prices"
  if h : 0 < multiplier ∧ ∀ m ∈ minimumNotional, 0 ≤ m then
    .ok ⟨multiplier, settlement, lot, minimumNotional, allowsNegativePrices, h.1, h.2⟩
  else .error (.invalid where_)

def Position.toJson (p : Position) : Payload :=
  .obj [
    ("asset_id", .str p.assetId),
    ("quantity", .decimal p.quantity),
    ("average_cost", .decimal p.averageCost),
    ("market_price", .decimal p.marketPrice),
    ("realized_pnl", .decimal p.realizedPnl),
    ("currency", .str p.currency),
    ("last_updated", .float p.lastUpdated),
    ("cost_basis", optionToJson .decimal p.costBasis),
    ("opened_at", optionToJson .float p.openedAt),
    ("minor_units", optionToJson (fun n : ℕ => .int n) p.minorUnits),
    ("economics", optionToJson InstrumentEconomics.toJson p.economics)]

/-- `_position` -/
def readPosition (value : Payload) (index : ℕ) : Except DecodeError Position := do
  let where_ := "positions[" ++ toString index ++ "]"
  let payload ← asObject value where_
  let assetId ← readField asStr payload where_ "asset_id"
  let quantity ← readField asDecimal payload where_ "quantity"
  let averageCost ← readField asDecimal payload where_ "average_cost"
  let marketPrice ← readField asDecimal payload where_ "market_price"
  let realizedPnl ← readField asDecimal payload where_ "realized_pnl"
  let currency ← readField asStr payload where_ "currency"
  let lastUpdated ← readField asFloat payload where_ "last_updated"
  let costBasis ← readField (asOptional asDecimal) payload where_ "cost_basis"
  let openedAt ← readField (asOptional asFloat) payload where_ "opened_at"
  let minorUnits ← readField (asOptional asUnits) payload where_ "minor_units"
  let economics ← readField (asOptional readEconomics) payload where_ "economics"
  if h : (∀ n ∈ minorUnits, n ≤ maxMinorUnits) ∧
      (minorUnits.or (iso4217MinorUnits currency)).isSome then
    .ok ⟨assetId, quantity, averageCost, marketPrice, realizedPnl, currency, lastUpdated, costBasis,
      openedAt, minorUnits, economics, h.1, h.2⟩
  else .error (.invalid where_)

def TransactionType.name : TransactionType → String
  | buy => "BUY"
  | sell => "SELL"
  | dividend => "DIVIDEND"
  | deposit => "DEPOSIT"
  | withdrawal => "WITHDRAWAL"
  | fee => "FEE"
  | interest => "INTEREST"
  | transfer => "TRANSFER"
  | variationMargin => "VARIATION_MARGIN"
  | funding => "FUNDING"
  | exchange => "EXCHANGE"
  | accrual => "ACCRUAL"

/-- A plain enumeration's member is written as `"Cls.NAME"`. -/
def TransactionType.text (t : TransactionType) : String := "TransactionType." ++ t.name

def transactionTypes : List (String × TransactionType) :=
  [.buy, .sell, .dividend, .deposit, .withdrawal, .fee, .interest, .transfer, .variationMargin,
    .funding, .exchange, .accrual].map fun t => (t.text, t)

def Transaction.toJson (t : Transaction) : Payload :=
  .obj [
    ("transaction_id", .int t.transactionId),
    ("timestamp", .float t.timestamp),
    ("account_id", .str t.accountId),
    ("type", .str t.type.text),
    ("asset_id", .str t.assetId),
    ("quantity", .decimal t.quantity),
    ("price", .decimal t.price),
    ("commission", .decimal t.commission),
    ("currency", .str t.currency),
    ("metadata", .mapping t.metadata)]

/-- `_transaction` -/
def readTransaction (value : Payload) (index : ℕ) : Except DecodeError Transaction := do
  let where_ := "transactions[" ++ toString index ++ "]"
  let payload ← asObject value where_
  let transactionId ← readField asUnits payload where_ "transaction_id"
  let timestamp ← readField asFloat payload where_ "timestamp"
  let accountId ← readField asStr payload where_ "account_id"
  let type ← readField (asEnum "TransactionType" transactionTypes) payload where_ "type"
  let assetId ← readField asStr payload where_ "asset_id"
  let quantity ← readField asDecimal payload where_ "quantity"
  let price ← readField asDecimal payload where_ "price"
  let commission ← readField asDecimal payload where_ "commission"
  let currency ← readField asStr payload where_ "currency"
  let metadata ← readField asMapping payload where_ "metadata"
  pure { transactionId, timestamp, accountId, type, assetId, quantity, price, commission, currency,
         metadata }

/-! ## Events -/

def PaymentChange.name : PaymentChange → String
  | delayed => "DELAYED"
  | failed => "FAILED"
  | corrected => "CORRECTED"
  | reversed => "REVERSED"
  | replaced => "REPLACED"

def paymentChanges : List (String × PaymentChange) :=
  [.delayed, .failed, .corrected, .reversed, .replaced].map fun c => (c.name, c)

def EventBody.toFields : EventBody → Fields
  | cashDeposited amount currency | cashWithdrawn amount currency =>
    [("amount", .decimal amount), ("currency", .str currency)]
  | positionOpened assetId quantity price =>
    [("asset_id", .str assetId), ("quantity", .decimal quantity), ("price", .decimal price)]
  | positionIncreased assetId addedQuantity price =>
    [("asset_id", .str assetId), ("added_quantity", .decimal addedQuantity),
      ("price", .decimal price)]
  | positionReduced assetId reducedQuantity price realizedPnl =>
    [("asset_id", .str assetId), ("reduced_quantity", .decimal reducedQuantity),
      ("price", .decimal price), ("realized_pnl", .decimal realizedPnl)]
  | positionClosed assetId price realizedPnl =>
    [("asset_id", .str assetId), ("price", .decimal price), ("realized_pnl", .decimal realizedPnl)]
  | marketValueUpdated prices => [("prices", entriesToJson .decimal prices)]
  | cashConverted amount fromCurrency converted toCurrency rate rateAsOf rateSource rateDerived =>
    [("amount", .decimal amount), ("from_currency", .str fromCurrency),
      ("converted", .decimal converted), ("to_currency", .str toCurrency), ("rate", .decimal rate),
      ("rate_as_of", .float rateAsOf), ("rate_source", .str rateSource),
      ("rate_derived", .bool rateDerived)]
  | variationSettled assetId price amount currency =>
    [("asset_id", .str assetId), ("price", .decimal price), ("amount", .decimal amount),
      ("currency", .str currency)]
  | cashFlowBooked kind assetId amount currency reference =>
    [("kind", .str kind), ("asset_id", .str assetId), ("amount", .decimal amount),
      ("currency", .str currency), ("reference", .str reference)]
  | positionExchanged assetId quantity received consideration realizedPnl retained reference =>
    [("asset_id", .str assetId), ("quantity", .decimal quantity),
      ("received", entriesToJson .decimal received),
      ("consideration", entriesToJson .decimal consideration),
      ("realized_pnl", .decimal realizedPnl), ("retained", .bool retained),
      ("reference", .str reference)]
  | paymentAmended assetId effectiveAt currency change owedBefore owedAfter settlesAt
      replacementCurrency replacement reference =>
    [("asset_id", .str assetId), ("effective_at", .float effectiveAt), ("currency", .str currency),
      ("change", .str change.name), ("owed_before", .decimal owedBefore),
      ("owed_after", .decimal owedAfter), ("settles_at", optionToJson .float settlesAt),
      ("replacement_currency", .str replacementCurrency), ("replacement", .decimal replacement),
      ("reference", .str reference)]
  | deliveryAmended assetId effectiveAt deliveredAsset change owedBefore owedAfter settlesAt
      reference =>
    [("asset_id", .str assetId), ("effective_at", .float effectiveAt),
      ("delivered_asset", .str deliveredAsset), ("change", .str change.name),
      ("owed_before", .decimal owedBefore), ("owed_after", .decimal owedAfter),
      ("settles_at", optionToJson .float settlesAt), ("reference", .str reference)]
  | positionSplit assetId ratio quantity =>
    [("asset_id", .str assetId), ("ratio", .decimal ratio), ("quantity", .decimal quantity)]

def PortfolioEventRecord.toJson (r : PortfolioEventRecord) : Payload :=
  .obj [
    ("event_type", .str r.eventType),
    ("event", .obj (("timestamp", .float r.event.timestamp) ::
      ("account_id", .str r.event.accountId) :: r.event.body.toFields))]

abbrev EventReader := Fields → String → Except DecodeError EventBody

section
variable (payload : Fields) (where_ : String)

def textField (key : String) : Except DecodeError String := readField asStr payload where_ key

def decimalField (key : String) : Except DecodeError Decimal :=
  readField asDecimal payload where_ key

def readCash (body : Decimal → String → EventBody) : Except DecodeError EventBody := do
  let amount ← decimalField payload where_ "amount"
  let currency ← textField payload where_ "currency"
  pure (body amount currency)

def readOpened : Except DecodeError EventBody := do
  let assetId ← textField payload where_ "asset_id"
  let quantity ← decimalField payload where_ "quantity"
  let price ← decimalField payload where_ "price"
  pure (.positionOpened assetId quantity price)

def readIncreased : Except DecodeError EventBody := do
  let assetId ← textField payload where_ "asset_id"
  let addedQuantity ← decimalField payload where_ "added_quantity"
  let price ← decimalField payload where_ "price"
  pure (.positionIncreased assetId addedQuantity price)

def readReduced : Except DecodeError EventBody := do
  let assetId ← textField payload where_ "asset_id"
  let reducedQuantity ← decimalField payload where_ "reduced_quantity"
  let price ← decimalField payload where_ "price"
  let realizedPnl ← decimalField payload where_ "realized_pnl"
  pure (.positionReduced assetId reducedQuantity price realizedPnl)

def readClosed : Except DecodeError EventBody := do
  let assetId ← textField payload where_ "asset_id"
  let price ← decimalField payload where_ "price"
  let realizedPnl ← decimalField payload where_ "realized_pnl"
  pure (.positionClosed assetId price realizedPnl)

def readMarketValue : Except DecodeError EventBody := do
  let prices ← readField asDecimalMapping payload where_ "prices"
  pure (.marketValueUpdated prices)

def readConverted : Except DecodeError EventBody := do
  let amount ← decimalField payload where_ "amount"
  let fromCurrency ← textField payload where_ "from_currency"
  let converted ← decimalField payload where_ "converted"
  let toCurrency ← textField payload where_ "to_currency"
  let rate ← decimalField payload where_ "rate"
  let rateAsOf ← readField asFloat payload where_ "rate_as_of"
  let rateSource ← textField payload where_ "rate_source"
  let rateDerived ← readField asBool payload where_ "rate_derived"
  pure (.cashConverted amount fromCurrency converted toCurrency rate rateAsOf rateSource
    rateDerived)

def readVariation : Except DecodeError EventBody := do
  let assetId ← textField payload where_ "asset_id"
  let price ← decimalField payload where_ "price"
  let amount ← decimalField payload where_ "amount"
  let currency ← textField payload where_ "currency"
  pure (.variationSettled assetId price amount currency)

def readCashFlow : Except DecodeError EventBody := do
  let kind ← textField payload where_ "kind"
  let assetId ← textField payload where_ "asset_id"
  let amount ← decimalField payload where_ "amount"
  let currency ← textField payload where_ "currency"
  let reference ← textField payload where_ "reference"
  pure (.cashFlowBooked kind assetId amount currency reference)

def readExchanged : Except DecodeError EventBody := do
  let assetId ← textField payload where_ "asset_id"
  let quantity ← decimalField payload where_ "quantity"
  let received ← readField asDecimalMapping payload where_ "received"
  let consideration ← readField asDecimalMapping payload where_ "consideration"
  let realizedPnl ← decimalField payload where_ "realized_pnl"
  let retained ← readField asBool payload where_ "retained"
  let reference ← textField payload where_ "reference"
  pure (.positionExchanged assetId quantity received consideration realizedPnl retained reference)

def readPaymentAmended : Except DecodeError EventBody := do
  let assetId ← textField payload where_ "asset_id"
  let effectiveAt ← readField asFloat payload where_ "effective_at"
  let currency ← textField payload where_ "currency"
  let change ← readField (asEnum "PaymentChange" paymentChanges) payload where_ "change"
  let owedBefore ← decimalField payload where_ "owed_before"
  let owedAfter ← decimalField payload where_ "owed_after"
  let settlesAt ← readField (asOptional asFloat) payload where_ "settles_at"
  let replacementCurrency ← textField payload where_ "replacement_currency"
  let replacement ← decimalField payload where_ "replacement"
  let reference ← textField payload where_ "reference"
  pure (.paymentAmended assetId effectiveAt currency change owedBefore owedAfter settlesAt
    replacementCurrency replacement reference)

def readDeliveryAmended : Except DecodeError EventBody := do
  let assetId ← textField payload where_ "asset_id"
  let effectiveAt ← readField asFloat payload where_ "effective_at"
  let deliveredAsset ← textField payload where_ "delivered_asset"
  let change ← readField (asEnum "PaymentChange" paymentChanges) payload where_ "change"
  let owedBefore ← decimalField payload where_ "owed_before"
  let owedAfter ← decimalField payload where_ "owed_after"
  let settlesAt ← readField (asOptional asFloat) payload where_ "settles_at"
  let reference ← textField payload where_ "reference"
  pure (.deliveryAmended assetId effectiveAt deliveredAsset change owedBefore owedAfter settlesAt
    reference)

def readSplit : Except DecodeError EventBody := do
  let assetId ← textField payload where_ "asset_id"
  let ratio ← decimalField payload where_ "ratio"
  let quantity ← decimalField payload where_ "quantity"
  pure (.positionSplit assetId ratio quantity)

end

/-- `_EVENT_TYPES`: how to read each type of event, by its tag. -/
def eventTypes : List (String × EventReader) :=
  [("CashConverted", readConverted),
    ("CashDeposited", (readCash · · .cashDeposited)),
    ("CashWithdrawn", (readCash · · .cashWithdrawn)),
    ("PositionOpened", readOpened),
    ("PositionIncreased", readIncreased),
    ("PositionReduced", readReduced),
    ("PositionClosed", readClosed),
    ("MarketValueUpdated", readMarketValue),
    ("VariationSettled", readVariation),
    ("CashFlowBooked", readCashFlow),
    ("PositionSplit", readSplit),
    ("PositionExchanged", readExchanged),
    ("PaymentAmended", readPaymentAmended),
    ("DeliveryAmended", readDeliveryAmended)]

/-- `_event` -/
def readEvent (value : Payload) (index : ℕ) : Except DecodeError PortfolioEventRecord := do
  let where_ := "events[" ++ toString index ++ "]"
  let record ← asObject value where_
  let eventType ← textField record where_ "event_type"
  let readBody ← orRefuse (Dict.getList eventType eventTypes)
    (.noMember (where_ ++ ".event_type") "a portfolio event" eventType)
  let payload ← readField asObject record where_ "event"
  let timestamp ← readField asFloat payload where_ "timestamp"
  let accountId ← textField payload where_ "account_id"
  let body ← readBody payload where_
  pure ⟨eventType, ⟨timestamp, accountId, body⟩⟩

/-! ## Versions -/

/-- `payload.get(key, default)` -/
def fieldOr (payload : Fields) (key : String) (default : Payload) : Payload :=
  (Dict.getList key payload).getD default

def amountsOfV3Book (payload : Fields) : Except DecodeError (List (String × Payload)) := do
  let books ← ["balances", "reserved", "realized_pnl", "commission_paid"].mapM fun key =>
    asObject (fieldOr payload key (.obj [])) key
  let positions ← asSequence (fieldOr payload "positions" (.arr [])) "positions"
  let held ← positions.mapM fun position => do
    let entry ← asObject position "positions"
    let currency ← asStr (fieldOr entry "currency" .null) "positions.currency"
    pure [(currency, fieldOr entry "cost_basis" .null), (currency, fieldOr entry "realized_pnl" .null)]
  pure (books.flatten ++ held.flatten)

/-- `_whole_minor_units`, of an amount that is there. -/
def wholeMinorUnits (units : ℕ) : Payload → Bool
  | .null => true
  | amount =>
    match asDecimal amount "" with
    | .ok x => decide (x = quantize units x)
    | .error _ => false

/-- `declared_units_of_v3_book`: a currency outside ISO 4217 was booked at the
    cent; one of fewer decimals must hold whole amounts. -/
def declaredUnitsOfV3Book (payload : Fields) : Except DecodeError (Dict String ℕ) := do
  let amounts ← amountsOfV3Book payload
  (SortedSet.ofList (amounts.map (·.1))).members.foldlM
    (fun declared currency =>
      match iso4217MinorUnits currency with
      | none => pure (declared.set currency 2)
      | some standard => do
        require (2 ≤ standard ∨ ∀ e ∈ amounts, e.1 = currency → wholeMinorUnits standard e.2)
          (.version "portfolio" 3)
        pure declared) Dict.empty

def atUnit (currency : String) (amount : Payload) : Except DecodeError Payload :=
  match iso4217MinorUnits currency, amount with
  | none, _ | _, .null => .ok amount
  | some standard, amount =>
    if 2 ≤ standard then .ok amount
    else (fun x => .decimal (quantize standard x)) <$> asDecimal amount currency

def positionV3ToV4 (declared : Dict String ℕ) (value : Payload) : Except DecodeError Payload := do
  let position ← asObject value "positions"
  let currency ← readField asStr position "positions" "currency"
  let costBasis ← requireField position "cost_basis"
  let costBasis ← atUnit currency costBasis
  let realizedPnl ← requireField position "realized_pnl"
  let realizedPnl ← atUnit currency realizedPnl
  let minorUnits := (declared.get? currency).or (iso4217MinorUnits currency)
  pure (.obj (Dict.setList "minor_units" (optionToJson (fun n : ℕ => .int n) minorUnits)
    (Dict.setList "realized_pnl" realizedPnl (Dict.setList "cost_basis" costBasis position))))

/-- `_v3_to_v4`: the minor units the book was kept at, and every position
    pending, as the older release marked it. -/
def v3ToV4 (payload : Fields) : Except DecodeError Fields := do
  let account ← asObject (fieldOr payload "account" .null) "account"
  let declared ← declaredUnitsOfV3Book payload
  let upgraded := Dict.setList "account" (.obj (Dict.setList "currency_units"
    (entriesToJson (fun n : ℕ => .int n) declared) account)) payload
  let upgraded ← ["balances", "reserved", "realized_pnl", "commission_paid"].foldlM
    (fun upgraded key => do
      let value ← requireField payload key
      let amounts ← asObject value key
      let amounts ← amounts.mapM fun e => do
        let amount ← atUnit e.1 e.2
        pure (e.1, amount)
      pure (Dict.setList key (.obj amounts) upgraded)) upgraded
  let positions ← asSequence (fieldOr payload "positions" (.arr [])) "positions"
  let upgradedPositions ← positions.mapM (positionV3ToV4 declared)
  let held ← positions.mapM fun position => do
    let entry ← asObject position "positions"
    readField asStr entry "positions" "asset_id"
  pure (Dict.setList "pending_marks" (.arr ((SortedSet.ofList held).members.map .str))
    (Dict.setList "positions" (.arr upgradedPositions) upgraded))

/-- `_v4_to_v5`: a version-4 position was booked as a fully paid unit of one. -/
def v4ToV5 (payload : Fields) : Except DecodeError Fields := do
  let positions ← asSequence (fieldOr payload "positions" (.arr [])) "positions"
  let positions := positions.map fun
    | .obj position => .obj (Dict.setList "economics" .null position)
    | value => value
  pure (Dict.setList "positions" (.arr positions) payload)

def portfolioSchemaHistory : SchemaHistory Metadata where
  subsystem := "portfolio"
  current := portfolioSnapshotSchema
  steps := [
    -- neither when a position opened nor its currency's P&L can be invented
    ⟨1, fun _ => .error (.version "portfolio" 1)⟩,
    ⟨2, fun _ => .error (.version "portfolio" 2)⟩,
    ⟨3, v3ToV4⟩,
    ⟨4, v4ToV5⟩]
  covers := by decide

def PortfolioSnapshot.toFields (p : PortfolioSnapshot) : Fields :=
  [ ("account", p.account.toJson),
    ("balances", entriesToJson .decimal p.balances),
    ("reserved", entriesToJson .decimal p.reserved),
    ("positions", .arr (p.positions.map Position.toJson)),
    ("transactions", .arr (p.transactions.map Transaction.toJson)),
    ("events", .arr (p.events.map PortfolioEventRecord.toJson)),
    ("realized_pnl", entriesToJson .decimal p.realizedPnl),
    ("commission_paid", entriesToJson .decimal p.commissionPaid),
    ("pending_marks", .arr (p.pendingMarks.map .str)),
    ("schema_version", .int p.schemaVersion)]

def PortfolioSnapshot.toJson (p : PortfolioSnapshot) : Payload := .obj p.toFields

/-- `_pending_marks`: held positions, each once and sorted. -/
def readPendingMarks (payload : Fields) (positions : List Position) :
    Except DecodeError (List String) := do
  let marks ← readItems (fun item index => asStr item ("pending_marks[" ++ toString index ++ "]"))
    payload "pending_marks"
  let held := SortedSet.ofList (positions.map (·.assetId))
  require (marks = (SortedSet.ofList marks).members ∧ ∀ mark ∈ marks, mark ∈ held)
    (.pendingMarks marks held.members)
  pure marks

def fromPrimitives (value : Payload) : Except DecodeError PortfolioSnapshot := do
  let payload ← asObject value "portfolio snapshot"
  let payload ← portfolioSchemaHistory.upgrade payload
  let positions ← readItems readPosition payload "positions"
  let account ← requireField payload "account"
  let account ← readAccount account
  let balances ← requireField payload "balances"
  let balances ← asDecimalMapping balances "balances"
  let reserved ← requireField payload "reserved"
  let reserved ← asDecimalMapping reserved "reserved"
  let transactions ← readItems readTransaction payload "transactions"
  let events ← readItems readEvent payload "events"
  let realizedPnl ← requireField payload "realized_pnl"
  let realizedPnl ← asDecimalMapping realizedPnl "realized_pnl"
  let commissionPaid ← requireField payload "commission_paid"
  let commissionPaid ← asDecimalMapping commissionPaid "commission_paid"
  let pendingMarks ← readPendingMarks payload positions
  pure { account, balances, reserved, positions, transactions, events, realizedPnl, commissionPaid,
         pendingMarks }

/-! ## Up to the order of mappings -/

def CurrencyUnits.sorted (units : CurrencyUnits) : CurrencyUnits where
  declared := units.declared.sorted
  bounded := fun c n h => units.bounded c n ((units.declared.get?_sorted c) ▸ h)
  standard := fun c n m h => units.standard c n m ((units.declared.get?_sorted c) ▸ h)

def Account.sorted (a : Account) : Account := { a with currencyUnits := a.currencyUnits.sorted }

def EventBody.sorted : EventBody → EventBody
  | marketValueUpdated prices => marketValueUpdated prices.sorted
  | positionExchanged assetId quantity received consideration realizedPnl retained reference =>
    positionExchanged assetId quantity received.sorted consideration.sorted realizedPnl retained
      reference
  | body => body

def PortfolioEventRecord.sorted (r : PortfolioEventRecord) : PortfolioEventRecord :=
  { r with event := { r.event with body := r.event.body.sorted } }

def PortfolioSnapshot.sorted (p : PortfolioSnapshot) : PortfolioSnapshot :=
  { p with
    account := p.account.sorted
    balances := p.balances.sorted
    reserved := p.reserved.sorted
    events := p.events.map PortfolioEventRecord.sorted
    realizedPnl := p.realizedPnl.sorted
    commissionPaid := p.commissionPaid.sorted }

/-- Equality of snapshots, whose mappings are equal in any order. -/
def PortfolioSnapshot.Same (p q : PortfolioSnapshot) : Prop := p.sorted = q.sorted

variable (body : EventBody) (units : CurrencyUnits)

theorem CurrencyUnits.sorted_sorted : units.sorted.sorted = units.sorted := by
  simp [CurrencyUnits.sorted, Dict.sorted_sorted]

theorem EventBody.sorted_sorted : body.sorted.sorted = body.sorted := by
  cases body <;> simp [EventBody.sorted, Dict.sorted_sorted]

theorem PortfolioSnapshot.sorted_same (p : PortfolioSnapshot) : p.sorted.Same p := by
  simp [Same, sorted, Account.sorted, PortfolioEventRecord.sorted, CurrencyUnits.sorted_sorted,
    EventBody.sorted_sorted, Dict.sorted_sorted]

/-! ## Reading back -/

theorem ok_bind {ε α β : Type} (a : α) (f : α → Except ε β) : (Except.ok a >>= f) = f a := rfl

theorem readCurrencyUnits_toJson (where_ : String) :
    readCurrencyUnits units.toJson where_ = .ok units.sorted := by
  have hentries : asEntries asUnits units.toJson where_ = .ok units.declared.sorted :=
    asEntries_toJson (fun _ _ => rfl) _ _
  have hvalid : ∀ e ∈ units.declared.sorted.entries,
      e.2 ≤ maxMinorUnits ∧ ∀ m ∈ iso4217MinorUnits e.1, e.2 = m := by
    intro e he
    rw [← Dict.get?_eq_some, Dict.get?_sorted] at he
    exact ⟨units.bounded _ _ he, fun m hm => units.standard _ _ m he hm⟩
  simp only [readCurrencyUnits, hentries, bind, Except.bind, dif_pos hvalid]
  rfl

theorem readAccount_toJson (a : Account) : readAccount a.toJson = .ok a.sorted := by
  simp [readAccount, Account.toJson, asObject, readField, requireField_cons_ne, asStr, asFloat,
    readCurrencyUnits_toJson, Account.sorted, ok_bind, pure, Except.pure]

theorem readLot_toJson (lot : LotSpecification) (where_ : String) :
    readLot lot.toJson where_ = .ok lot := by
  obtain ⟨lotSize, minimum, hsize, hminimum, hwhole⟩ := lot
  simp [readLot, LotSpecification.toJson, asObject, readField, requireField_cons_ne, require,
    textDecimal, hsize, hminimum, hwhole, ok_bind]

theorem readEconomics_toJson (e : InstrumentEconomics) (where_ : String) :
    readEconomics e.toJson where_ = .ok e := by
  obtain ⟨multiplier, settlement, lot, minimum, negative, hmultiplier, hminimum⟩ := e
  have hlot := asOptional_toJson readLot_toJson (fun _ => by simp [LotSpecification.toJson]) lot
  have hnotional := asOptional_toJson (r := textDecimal) (w := .decimal)
    (fun _ _ => rfl) (by simp) minimum
  have hsettlement : ∀ w, asEnum "SettlementModel" settlementModels
      (.str settlement.text : Payload) w = .ok settlement := by
    intro w
    cases settlement <;> rfl
  simp [readEconomics, InstrumentEconomics.toJson, asObject, readField, requireField_cons_ne,
    textDecimal, asBool, hlot, hnotional, hsettlement, hmultiplier, ok_bind]
  exact dif_pos hminimum

theorem readPosition_toJson (p : Position) (index : ℕ) : readPosition p.toJson index = .ok p := by
  obtain ⟨assetId, quantity, averageCost, marketPrice, realizedPnl, currency, lastUpdated, costBasis,
    openedAt, minorUnits, economics, hle, hknown⟩ := p
  have hbasis := asOptional_toJson (r := (asDecimal : Payload → _)) (w := .decimal)
    (fun _ _ => rfl) (by simp) costBasis
  have hopened := asOptional_toJson (r := (asFloat : Payload → _)) (w := .float)
    (fun _ _ => rfl) (by simp) openedAt
  have hunits := asOptional_toJson (r := asUnits) (w := fun n : ℕ => .int n)
    (fun _ _ => rfl) (by simp) minorUnits
  have heconomics := asOptional_toJson readEconomics_toJson
    (fun _ => by simp [InstrumentEconomics.toJson]) economics
  simp [readPosition, Position.toJson, asObject, readField, requireField_cons_ne, asStr, asDecimal,
    asFloat, hbasis, hopened, hunits, heconomics, ok_bind]
  exact dif_pos ⟨hle, by simpa using hknown⟩

theorem readTransaction_toJson (t : Transaction) (index : ℕ) :
    readTransaction t.toJson index = .ok t := by
  have htype : ∀ w, asEnum "TransactionType" transactionTypes (.str t.type.text : Payload) w =
      .ok t.type := by
    intro w
    cases t.type <;> rfl
  have hid : ∀ w, asUnits (.int t.transactionId : Payload) w = .ok t.transactionId := fun _ => rfl
  simp [readTransaction, Transaction.toJson, asObject, readField, requireField_cons_ne, asStr,
    asDecimal, asFloat, asMapping, htype, hid, ok_bind, pure, Except.pure]

theorem asEnum_change (change : PaymentChange) (where_ : String) :
    asEnum "PaymentChange" paymentChanges (.str change.name : Payload) where_ = .ok change := by
  cases change <;> rfl

theorem readBody_toFields (timestamp accountId : Payload) :
    ∃ read, Dict.getList body.typeName eventTypes = some read ∧
      ∀ where_, read (("timestamp", timestamp) :: ("account_id", accountId) :: body.toFields)
        where_ = .ok body.sorted := by
  have hsettles : ∀ (o : Option Instant) w, asOptional asFloat
      (optionToJson .float o : Payload) w = .ok o :=
    asOptional_toJson (fun _ _ => rfl) (by simp)
  cases body <;> refine ⟨_, rfl, fun where_ => ?_⟩ <;>
    simp [readCash, readOpened, readIncreased, readReduced, readClosed, readMarketValue,
      readConverted, readVariation, readCashFlow, readSplit, readExchanged, readPaymentAmended,
      readDeliveryAmended, EventBody.toFields, EventBody.sorted, textField, decimalField, readField,
      requireField_cons_ne, asStr, asDecimal, asFloat, asBool, asEnum_change,
      asDecimalMapping_toJson, hsettles, ok_bind, pure, Except.pure]

theorem readEvent_toJson (e : PortfolioEvent) (index : ℕ) :
    readEvent (PortfolioEventRecord.toJson ⟨e.body.typeName, e⟩) index =
      .ok (PortfolioEventRecord.sorted ⟨e.body.typeName, e⟩) := by
  obtain ⟨read, htype, hread⟩ := readBody_toFields e.body (.float e.timestamp) (.str e.accountId)
  simp [readEvent, PortfolioEventRecord.toJson, PortfolioEventRecord.sorted, asObject, textField,
    readField, requireField_cons_ne, asStr, asFloat, htype, hread, orRefuse, ok_bind, pure,
    Except.pure]

/-- The marks of a sorted set are read back iff they are held. -/
theorem readPendingMarks_members {p : Fields} {m : SortedSet String}
    (hpayload : requireField p "pending_marks" = .ok (.arr (m.members.map .str)))
    (positions : List Position) :
    readPendingMarks p positions =
      if ∀ mark ∈ m.members, mark ∈ positions.map (·.assetId) then .ok m.members
      else .error (.pendingMarks m.members
        (SortedSet.ofList (positions.map (·.assetId))).members) := by
  have hread := readItems_map (g := id)
    (r := fun item index => asStr item ("pending_marks[" ++ toString index ++ "]"))
    hpayload (fun _ _ _ => rfl)
  rw [List.map_id] at hread
  simp only [readPendingMarks, hread, ok_bind, SortedSet.ofList_members, true_and,
    SortedSet.mem_ofList, require]
  split_ifs <;> rfl

/-- **A captured snapshot is read back iff its pending marks are held.** -/
theorem fromPrimitives_toJson (s : PortfolioState) :
    fromPrimitives (capture s).toJson =
      if ∀ mark ∈ s.pendingMarks.members, mark ∈ s.positions.values.map (·.assetId) then
        .ok (capture s).sorted
      else .error (.pendingMarks s.pendingMarks.members
        (SortedSet.ofList (s.positions.values.map (·.assetId))).members) := by
  have hcurrent : portfolioSchemaHistory.upgrade (capture s).toFields = .ok (capture s).toFields :=
    SchemaHistory.upgrade_current (by simp [PortfolioSnapshot.toFields, requireField_cons_ne]; rfl)
  have hpositions : readItems readPosition (capture s).toFields "positions" =
      .ok s.positions.values := by
    rw [readItems_map (w := Position.toJson) (l := s.positions.values) (g := id)
      (by simp [PortfolioSnapshot.toFields, requireField_cons_ne, capture])
      (fun p _ i => readPosition_toJson p i), List.map_id]
  have htransactions : readItems readTransaction (capture s).toFields "transactions" =
      .ok s.ledger := by
    rw [readItems_map (w := Transaction.toJson) (l := s.ledger) (g := id)
      (by simp [PortfolioSnapshot.toFields, requireField_cons_ne, capture])
      (fun t _ i => readTransaction_toJson t i), List.map_id]
  have hevents : readItems readEvent (capture s).toFields "events" =
      .ok (s.events.map fun e => PortfolioEventRecord.sorted ⟨e.body.typeName, e⟩) :=
    readItems_map (by simp [PortfolioSnapshot.toFields, requireField_cons_ne, capture])
      (fun e _ i => readEvent_toJson e i)
  have hmarks := readPendingMarks_members (p := (capture s).toFields)
    (m := s.pendingMarks)
    (by simp [PortfolioSnapshot.toFields, requireField_cons_ne, capture]) s.positions.values
  have hsorted : (capture s).sorted = {
      account := s.account.sorted
      balances := s.cash.balances.sorted
      reserved := s.cash.reserved.sorted
      positions := s.positions.values
      transactions := s.ledger
      events := s.events.map fun e => PortfolioEventRecord.sorted ⟨e.body.typeName, e⟩
      realizedPnl := s.realizedPnl.amounts.sorted
      commissionPaid := s.commissionPaid.amounts.sorted
      pendingMarks := s.pendingMarks.members } := by
    simp [PortfolioSnapshot.sorted, capture, Function.comp_def]
  simp only [fromPrimitives, PortfolioSnapshot.toJson, asObject, hcurrent, hpositions,
    htransactions, hevents, hmarks, ok_bind, hsorted]
  simp only [PortfolioSnapshot.toFields, requireField_cons_self, requireField_cons_ne, ne_eq,
    String.reduceEq, not_false_eq_true, ok_bind, readAccount_toJson, asDecimalMapping_toJson,
    capture]
  split_ifs <;> rfl

end AlphaLab
