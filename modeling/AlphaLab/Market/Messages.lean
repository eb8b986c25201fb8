/-
  A venue's message, from its text to a canonical record (`market/stream.py`,
  `market/normalization.py`, `market/validation.py`).

  * `JsonValue` is what `json.loads` makes of a text, `Number` a float or the decimal that is
    read from what it prints as;
  * `Wire` records are read field by field with `float`, `Canonical` ones are lifted from
    them by the policy and validated;
  * `StreamSource.recordFromText` is `_record_from`, with every error that nothing catches.

  Python's own readers and its floating-point sums are given by a `Python`.
-/
import AlphaLab.Market.Stream
import AlphaLab.Simulation.Events

namespace AlphaLab

open Fallible

inductive Number where
  | finite (x : ℚ)
  | infinite (negative : Bool)
  | nan
deriving DecidableEq

namespace Number

def isFinite : Number → Bool
  | finite _ => true
  | infinite _ | nan => false

/-- Whether one number is below another; NaN is below none, and none is below it. -/
def below : Number → Number → Bool
  | nan, _ | _, nan => false
  | finite x, finite y => decide (x < y)
  | finite _, infinite negative => !negative
  | infinite negative, finite _ => negative
  | infinite a, infinite b => a && !b

end Number

/-! ## What Python reads -/

/-- What `json.loads` makes of a text. -/
inductive JsonValue where
  | null
  | bool (b : Bool)
  | int (n : ℤ)
  | float (x : Number)
  | str (text : String)
  | array (items : List JsonValue)
  | object (fields : List (String × JsonValue))

/-- How `json.loads` ends. -/
inductive Loaded where
  | value (value : JsonValue)
  | notJson
  /-- another error, as an over-long integer literal or nesting too deep raises -/
  | failed

structure Python where
  loads : String → Loaded
  parse : String → Option Number
  nearest : ℤ → ℚ
  plus : Number → Number → Number

/-- The least magnitude that no float is nearest to: half a unit above the greatest. -/
def floatLimit : ℕ := 2 ^ 1024 - 2 ^ 970

/-- Errors that leave `_record_from`. -/
inductive Escaped where
  | loads
  /-- `TypeError`: a list or a dict is looked for in a set -/
  | unhashable
  /-- `OverflowError`: an integer is too large for a float -/
  | overflow
  | invalidOperation
  | negativeAge

inductive Unnormalized where
  | rejected
  | escaped (e : Escaped)

namespace Python

variable (py : Python)

/-- `float` of an integer. -/
def floatOfInt (n : ℤ) : Except Unnormalized Number :=
  if floatLimit ≤ n.natAbs then .error (.escaped .overflow) else .ok (.finite (py.nearest n))

def float : JsonValue → Except Unnormalized Number
  | .float x => .ok x
  | .int n => py.floatOfInt n
  | .bool b => .ok (.finite (if b then 1 else 0))
  | .str text => orRefuse (py.parse text) .rejected
  | .null | .array _ | .object _ => .error .rejected

abbrev WireField := String × Option Number

/-- `float(payload[name])`, or `float(payload.get(name, default))`. -/
def readField (fields : List (String × JsonValue)) (f : WireField) : Except Unnormalized Number :=
  match Dict.getList f.1 fields, f.2 with
  | some value, _ => py.float value
  | none, some default => .ok default
  | none, none => .error .rejected

end Python

namespace Wire

structure Quote where
  symbol : String
  timestamp : Number
  bid : Number
  ask : Number
  bidSize : Number
  askSize : Number

structure Trade where
  symbol : String
  timestamp : Number
  price : Number
  size : Number
  tradeId : String := ""
  aggressor : Option Side := none

structure Bar where
  symbol : String
  timestamp : Number
  «open» : Number
  high : Number
  low : Number
  close : Number
  volume : Number

end Wire

structure TimeFrame where
  count : ℕ
  unit : IntervalUnit

/-- `_UNIT_SECONDS` -/
def IntervalUnit.seconds? : IntervalUnit → Option ℕ
  | second => some 1
  | minute => some 60
  | hour => some 3600
  | day => some 86400
  | week => some 604800
  | month => none

inductive BarStamp where
  | intervalStart
  | intervalEnd

/-- `NormalizationPolicy`, resolving identity through a registry. -/
structure NormalizationPolicy where
  venue : String
  currency : Option String
  timeframe : Option TimeFrame
  barStamp : Option BarStamp
  /-- `identity.resolve_at`: the instrument a symbol is at an instant, if it is one -/
  resolveAt : String → Number → Option String

namespace Canonical

structure Quote where
  assetId : String
  timestamp : Number
  bid : Number
  ask : Number
  bidSize : Number
  askSize : Number
  venue : String
  currency : String

structure Tick where
  assetId : String
  timestamp : Number
  price : Number
  quantity : Number
  tradeId : String
  venue : String
  currency : String
  aggressor : Option Side

structure Bar where
  assetId : String
  timestamp : Number
  «open» : Number
  high : Number
  low : Number
  close : Number
  volume : Number
  vwap : Option Number
  tradeCount : Option ℤ
  timeframe : TimeFrame

end Canonical

inductive MarketInput where
  | quote (quote : Canonical.Quote)
  | tick (tick : Canonical.Tick)
  | bar (bar : Canonical.Bar)

def MarketInput.timestamp : MarketInput → Number
  | quote q => q.timestamp
  | tick t => t.timestamp
  | bar b => b.timestamp

/-! ## Validation -/

abbrev Checking := Except Unnormalized Unit

/-- `<` of two decimals. -/
def comparedLess (a b : Number) : Except Unnormalized Bool :=
  if a = .nan ∨ b = .nan then .error (.escaped .invalidOperation) else .ok (a.below b)

/-- A canonical record is refused where one decimal is below another. -/
def refuseLess (a b : Number) : Checking := do
  let less ← comparedLess a b
  require (less = false) .rejected

/-- `is_valid_timestamp` -/
def requireTimestamp (timestamp : Number) : Checking :=
  require ((Number.finite 0).below timestamp = true) .rejected

/-- `validate_quote` -/
def Canonical.Quote.validate (q : Canonical.Quote) : Checking := do
  require (q.bid.isFinite = true ∧ q.ask.isFinite = true) .rejected
  refuseLess q.ask q.bid
  refuseLess q.bidSize (.finite 0)
  refuseLess q.askSize (.finite 0)
  requireTimestamp q.timestamp

/-- `validate_tick` -/
def Canonical.Tick.validate (t : Canonical.Tick) : Checking := do
  require (t.price.isFinite = true) .rejected
  refuseLess t.quantity (.finite 0)
  requireTimestamp t.timestamp

/-- `validate_bar`, of a bar with no volume-weighted price and no count of trades. -/
def Canonical.Bar.validate (b : Canonical.Bar) : Checking := do
  refuseLess b.high b.low
  refuseLess b.volume (.finite 0)
  requireTimestamp b.timestamp

/-! ## Normalization -/

namespace Python

variable (py : Python) (policy : NormalizationPolicy)

def normalizeWireQuote (w : Wire.Quote) : Except Unnormalized MarketInput := do
  let assetId ← orRefuse (policy.resolveAt w.symbol w.timestamp) .rejected
  let currency ← orRefuse policy.currency .rejected
  let canonical : Canonical.Quote :=
    ⟨assetId, w.timestamp, w.bid, w.ask, w.bidSize, w.askSize, policy.venue, currency⟩
  canonical.validate
  pure (.quote canonical)

/-- `normalize_wire_trade`, of a print that is named nothing else. -/
def normalizeWireTrade (w : Wire.Trade) : Except Unnormalized MarketInput := do
  let assetId ← orRefuse (policy.resolveAt w.symbol w.timestamp) .rejected
  let currency ← orRefuse policy.currency .rejected
  let canonical : Canonical.Tick :=
    ⟨assetId, w.timestamp, w.price, w.size, w.tradeId, policy.venue, currency, w.aggressor⟩
  canonical.validate
  pure (.tick canonical)

/-- `TimeFrame.seconds`, of one that is not counted in months. -/
def timeframeSeconds (t : TimeFrame) : Except Unnormalized Number := do
  let perUnit ← orRefuse t.unit.seconds? .rejected
  py.floatOfInt (t.count * perUnit : ℕ)

def barEnd (timestamp : Number) : Except Unnormalized Number := do
  match ← orRefuse policy.barStamp .rejected with
  | .intervalEnd => pure timestamp
  | .intervalStart => do
    let timeframe ← orRefuse policy.timeframe .rejected
    let seconds ← py.timeframeSeconds timeframe
    pure (py.plus timestamp seconds)

def normalizeWireBar (w : Wire.Bar) : Except Unnormalized MarketInput := do
  let «end» ← py.barEnd policy w.timestamp
  let assetId ← orRefuse (policy.resolveAt w.symbol «end») .rejected
  let timeframe ← orRefuse policy.timeframe .rejected
  let canonical : Canonical.Bar :=
    ⟨assetId, «end», w.open, w.high, w.low, w.close, w.volume, none, none, timeframe⟩
  canonical.validate
  pure (.bar canonical)

variable (symbol : String) (fields : List (String × JsonValue))

def wireQuote : Except Unnormalized Wire.Quote := do
  let timestamp ← py.readField fields ("timestamp", none)
  let bid ← py.readField fields ("bid", none)
  let ask ← py.readField fields ("ask", none)
  let bidSize ← py.readField fields ("bid_size", some (.finite 0))
  let askSize ← py.readField fields ("ask_size", some (.finite 0))
  pure ⟨symbol, timestamp, bid, ask, bidSize, askSize⟩

def wireTrade : Except Unnormalized Wire.Trade := do
  let timestamp ← py.readField fields ("timestamp", none)
  let price ← py.readField fields ("price", none)
  let size ← py.readField fields ("size", none)
  pure { symbol := symbol, timestamp := timestamp, price := price, size := size }

def wireBar : Except Unnormalized Wire.Bar := do
  let timestamp ← py.readField fields ("timestamp", none)
  let «open» ← py.readField fields ("open", none)
  let high ← py.readField fields ("high", none)
  let low ← py.readField fields ("low", none)
  let close ← py.readField fields ("close", none)
  let volume ← py.readField fields ("volume", some (.finite 0))
  pure ⟨symbol, timestamp, «open», high, low, close, volume⟩

def normalize (kind : MessageKind) : Except Unnormalized MarketInput :=
  match kind with
  | .quote => do
    let w ← py.wireQuote symbol fields
    normalizeWireQuote policy w
  | .trade => do
    let w ← py.wireTrade symbol fields
    normalizeWireTrade policy w
  | _ => do
    let w ← py.wireBar symbol fields
    py.normalizeWireBar policy w

end Python

/-! ## A message -/

structure SourceConfig where
  sourceId : String
  policy : NormalizationPolicy
  maxRecordAge : Option Decimal

/-- `MarketRecord` -/
structure StreamedRecord where
  eventId : String
  timestamp : Number
  payload : MarketInput

/-- What a message's `type` says it is. -/
def kindOf : Option JsonValue → MessageKind
  | some (.str text) =>
    if text = "heartbeat" then .heartbeat
    else if text = "subscribed" then .subscribed
    else if text = "error" then .error
    else if text = "quote" then .quote
    else if text = "trade" then .trade
    else if text = "bar" then .bar
    else .other
  | some (.array _) | some (.object _) => .unhashable
  | _ => .other

/-- What a message's `symbol` is, where it is a text that is not empty. -/
def symbolOf : Option JsonValue → Option String
  | some (.str text) => if text = "" then none else some text
  | _ => none

/-- What a message's `sequence` is. -/
def sequenceOf : Option JsonValue → SequenceField
  | none | some .null => .absent
  | some (.int raw) => .number raw
  | _ => .other

/-- `is_stale` of a record with a timestamp that was accepted: one that is infinite is not. -/
def staleAt (timestamp : Number) (now maxAge : Decimal) : Option Bool :=
  match timestamp with
  | .finite t => isStale t now maxAge
  | _ => if maxAge < 0 then none else some false

namespace StreamSource

variable (py : Python) (c : SourceConfig) (s : StreamSource) (now : Instant)

/-- A message that was admitted: normalized, counted malformed or stale, or a record. -/
def admittedText (kind : MessageKind) (symbol : String) (fields : List (String × JsonValue)) :
    Except Escaped (StreamSource × Option StreamedRecord) :=
  match py.normalize c.policy symbol fields kind with
  | .error .rejected => .ok (s.countMalformed, none)
  | .error (.escaped e) => .error e
  | .ok canonical =>
    match c.maxRecordAge.elim (some false) (staleAt canonical.timestamp now) with
    | none => .error .negativeAge
    | some true => .ok (s.counting fun n => { n with stale := n.stale + 1 }, none)
    | some false =>
      .ok ({ s with counter := s.counter + 1 },
        some ⟨recordId c.sourceId (s.counter + 1), canonical.timestamp, canonical⟩)

def marketText (kind : MessageKind) (fields : List (String × JsonValue)) :
    Except Escaped (StreamSource × Option StreamedRecord) :=
  match symbolOf (Dict.getList "symbol" fields) with
  | none => .ok (s.countMalformed, none)
  | some symbol =>
    match s.sequenceAdmits symbol (sequenceOf (Dict.getList "sequence" fields)) with
    | (s, false) => .ok (s, none)
    | (s, true) => s.admittedText py c now kind symbol fields

/-- `_record_from` -/
def recordFromText (text : String) : Except Escaped (StreamSource × Option StreamedRecord) :=
  match py.loads text with
  | .failed => .error .loads
  | .notJson => .ok (s.countMalformed, none)
  | .value (.object fields) =>
    let kind := kindOf (Dict.getList "type" fields)
    match kind with
    | .heartbeat => .ok (s.counting fun n => { n with heartbeats := n.heartbeats + 1 }, none)
    | .subscribed => .ok (s, none)
    | .error => .ok (s.counting fun n => { n with errors := n.errors + 1 }, none)
    | .unhashable => .error .unhashable
    | .other => .ok (s.countMalformed, none)
    | .quote | .trade | .bar => s.marketText py c now kind fields
  | .value _ => .ok (s.countMalformed, none)

end StreamSource

end AlphaLab
