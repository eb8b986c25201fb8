/-
  Market events, as a simulated order reads them (`market/`,
  `runtime/execution_pipeline.py`).

  * `marketPrice` is the price an event moves an asset's to;
  * `availableQuantity` is the size it showed on the side an order has to cross,
    `availableQuote` the two sides of its quote;
  * `restingFillPrice`, `stopPriceReached`: the price at which the event trades
    through a limit, or reaches a stop.
-/
import AlphaLab.Oms.Orders

namespace AlphaLab

/-! ## Events -/

inductive IntervalUnit where
  | second | minute | hour | day | week | month

/-- `_SESSION_UNITS`: a bar of one of these opens and closes a session. -/
def IntervalUnit.isSession : IntervalUnit → Bool
  | day | week | month => true
  | second | minute | hour => false

structure Quote where
  assetId : String
  bid : Decimal
  ask : Decimal
  bidSize : Decimal
  askSize : Decimal

/-- `Tick`: one trade; the aggressor where the source reported it. -/
structure Tick where
  assetId : String
  price : Decimal
  quantity : Decimal
  aggressor : Option Side := none

/-- `Bar`, over an interval counted in `unit`. -/
structure Bar where
  assetId : String
  unit : IntervalUnit
  «open» : Decimal
  high : Decimal
  low : Decimal
  close : Decimal
  volume : Decimal

inductive MarketData where
  | quote (quote : Quote)
  | tick (tick : Tick)
  | trade (tick : Tick)
  | bar (bar : Bar)
  | book

structure MarketEvent where
  timestamp : Instant
  data : MarketData

namespace MarketEvent

variable (event : MarketEvent)

/-- `_market_price`: the asset whose price the event moves, and where to. -/
def marketPrice : Option (String × Decimal) :=
  match event.data with
  | .quote q => some (q.assetId, divide (add q.bid q.ask) 2)
  | .bar b => some (b.assetId, b.close)
  | .tick t => some (t.assetId, t.price)
  | .trade _ | .book => none

def availableQuote : Option (Decimal × Decimal) :=
  match event.data with
  | .quote q => some (q.bid, q.ask)
  | .tick _ | .trade _ | .bar _ | .book => none

/-- `_available_quantity`: the size shown on the side an order has to cross. -/
def availableQuantity (side : Side) : Option Decimal :=
  match event.data with
  | .quote q => some (if side = .buy then q.askSize else q.bidSize)
  | .bar b => some b.volume
  | .tick t | .trade t => some t.quantity
  | .book => none

def sessionBar (assetId : String) : Option Bar :=
  match event.data with
  | .bar b => if b.assetId = assetId ∧ b.unit.isSession then some b else none
  | .quote _ | .tick _ | .trade _ | .book => none

/-- The price an auction is read from: a bar's open, or the price the event prints. -/
def openingPrint : Option Decimal :=
  match event.data with
  | .bar b => some b.open
  | .quote _ | .tick _ | .trade _ | .book => event.marketPrice.map Prod.snd

end MarketEvent

/-- Whether a price is within a limit: no dearer to a buyer, no cheaper to a seller. -/
def Side.within (side : Side) (limit price : Decimal) : Bool :=
  match side with
  | .buy => price ≤ limit
  | .sell => limit ≤ price

/-- `_within_limit`; an order without a limit is within none. -/
def Order.withinLimit (order : Order) (price : Decimal) : Bool :=
  order.limitPrice.any fun limit => order.side.within limit price

/-- `_resting_fill_price`: the price a resting limit order fills at, if it is reached. -/
def Order.restingFillPrice (order : Order) (event : MarketEvent) : Option Decimal :=
  order.limitPrice.bind fun limit =>
    match event.data, order.side with
    | .quote q, .buy => if q.ask ≤ limit then some limit else none
    | .quote q, .sell => if limit ≤ q.bid then some limit else none
    | .bar b, .buy => if b.low ≤ limit then some (min b.open limit) else none
    | .bar b, .sell => if limit ≤ b.high then some (max b.open limit) else none
    | .tick t, side | .trade t, side => if side.within limit t.price then some limit else none
    | .book, _ => none

/-- The price a stop order is tried against: a quote's far side, or the market's. -/
def Order.observedPrice (order : Order) (event : MarketEvent) (marketPrice : Decimal) : Decimal :=
  match event.data with
  | .quote q => if order.side = .buy then q.ask else q.bid
  | .bar _ | .tick _ | .trade _ | .book => marketPrice

/-- The price at which a bar's range reaches a stop, or opened beyond it. -/
def Bar.reachesStop (bar : Bar) (side : Side) (stop : Decimal) : Option Decimal :=
  match side with
  | .buy => if stop ≤ bar.high then some (max bar.open stop) else none
  | .sell => if bar.low ≤ stop then some (min bar.open stop) else none

/-- `_stop_price_reached`: the price a stop order executes against, if it is reached. -/
def Order.stopPriceReached (order : Order) (event : MarketEvent) (marketPrice : Decimal)
    (arriving : Bool) : Option Decimal :=
  order.stopPrice.bind fun stop =>
    match event.data, arriving with
    | .bar b, false => b.reachesStop order.side stop
    | _, _ =>
      let observed := order.observedPrice event marketPrice
      -- a stop is reached from the other side than a limit
      if order.side.within observed stop then some marketPrice else none

end AlphaLab
