/-
  Queue models: whether a resting limit order has reached the front of its price
  level (`execution/queue.py`, and `_queue_observation`, `_queued` of
  `runtime/execution_pipeline.py`).

  * a `QueueModel` keeps what is ahead of an order at its limit, and says how much
    of it may fill at an event (`QueueTurn`);
  * `priceTimeQueue` is price-time priority over what a feed shows.
-/
import AlphaLab.Simulation.Events

namespace AlphaLab

/-! ## Models -/

/-- `QueueObservation`: what an event showed of the queue, each part where it did. -/
structure QueueObservation where
  /-- The best price of a side, and the size shown there. -/
  bid : Option (Decimal × Option Decimal) := none
  ask : Option (Decimal × Option Decimal) := none
  /-- A print's price and quantity, and which side crossed the spread to make it. -/
  print : Option (Decimal × Option Decimal) := none
  aggressor : Option Side := none
  low : Option Decimal := none
  high : Option Decimal := none

/-- `QueuePosition`: what is ahead of an order at its limit, if an event showed it. -/
structure QueuePosition where
  limitPrice : Decimal
  ahead : Option Decimal

/-- `QueueTurn`: where an order stands after an event, and how much of it may fill there;
    `none` where the fill policy alone decides. -/
structure QueueTurn where
  position : QueuePosition
  eligible : Option Decimal

def QueueTurn.mayFill (turn : QueueTurn) : Bool := turn.eligible.all (0 < ·)

structure QueueModel where
  join : Side → Decimal → QueueObservation → QueuePosition
  advance : QueuePosition → Side → QueueObservation → QueueTurn

/-- `QueueBook`: the position of each order a queue model governs. -/
structure QueueBook where
  model : QueueModel
  positions : Dict String QueuePosition := Dict.empty

namespace QueueBook

variable (book : QueueBook)

def placed (orderId : String) (position : QueuePosition) : QueueBook :=
  { book with positions := book.positions.set orderId position }

def without (orderId : String) : QueueBook :=
  { book with positions := book.positions.delete orderId }

end QueueBook

def MarketEvent.queueObservation (event : MarketEvent) : QueueObservation :=
  match event.data with
  | .quote q => { bid := some (q.bid, some q.bidSize), ask := some (q.ask, some q.askSize) }
  | .tick t | .trade t => { print := some (t.price, some t.quantity), aggressor := t.aggressor }
  | .bar b => { low := some b.low, high := some b.high }
  | .book => {}

/-- `_queued`: a limit order resting in continuous trading. -/
def Order.isQueued (order : Order) : Bool :=
  !(order.isImmediate || order.isAuction) &&
    (order.orderType = .limit || (order.orderType = .stopLimit && order.triggeredAt.isSome))

/-! ## Price-time priority -/

/-- `_better`: a limit that is strictly better for its order than a price. -/
def Side.better (side : Side) (limit price : Decimal) : Bool :=
  match side with
  | .buy => price < limit
  | .sell => limit < price

namespace QueueObservation

variable (seen : QueueObservation)

/-- `_same_side`: the best price on an order's side, and its size. -/
def sameSide (side : Side) : Option (Decimal × Option Decimal) :=
  match side with
  | .buy => seen.bid
  | .sell => seen.ask

def opposite (side : Side) : Option Decimal :=
  match side with
  | .buy => seen.ask.map Prod.fst
  | .sell => seen.bid.map Prod.fst

def extreme (side : Side) : Option Decimal :=
  match side with
  | .buy => seen.low
  | .sell => seen.high

/-- `_consumes`: whether a print at the limit traded against the order's side. -/
def consumes (side : Side) (countUnsignedTrades : Bool) : Bool :=
  seen.aggressor.elim countUnsignedTrades (· ≠ side)

def shownAhead (side : Side) (limit : Decimal) (ahead : Option Decimal) : Option Decimal :=
  match seen.sameSide side with
  | none => ahead
  | some (best, size) =>
    if side.better limit best then some 0
    else if best = limit then size.elim ahead fun size => some (ahead.elim size (min · size))
    else ahead

def through (side : Side) (limit : Decimal) : Bool :=
  (seen.opposite side).any (side.better limit) ||
    (seen.print.map Prod.fst).any (side.better limit) ||
    (seen.extreme side).any (side.better limit)

def touched (side : Side) (limit : Decimal) : Bool :=
  (seen.opposite side).any (· = limit) || (seen.extreme side).any (· = limit)

def printedBeyond (side : Side) (limit : Decimal) (countUnsignedTrades : Bool)
    (ahead : Option Decimal) : Option Decimal × Option Decimal :=
  match seen.print, ahead with
  | some (price, some printed), some queued =>
    if price = limit ∧ seen.consumes side countUnsignedTrades then
      if queued < printed then (some 0, some (subtract printed queued))
      else (some (subtract queued printed), some 0)
    else (ahead, none)
  | _, _ => (ahead, none)

end QueueObservation

def priceTimeQueue (countUnsignedTrades : Bool := false) : QueueModel where
  join side limit seen :=
    match seen.sameSide side with
    | none => ⟨limit, none⟩
    | some (best, size) =>
      if side.better limit best then ⟨limit, some 0⟩
      else if limit = best then ⟨limit, size⟩
      else ⟨limit, none⟩
  advance position side seen :=
    let limit := position.limitPrice
    let (ahead, beyond) := seen.printedBeyond side limit countUnsignedTrades
      (seen.shownAhead side limit position.ahead)
    if seen.through side limit then ⟨⟨limit, some 0⟩, none⟩
    else if beyond.any (0 < ·) then ⟨⟨limit, ahead⟩, beyond⟩
    else if seen.touched side limit ∧ ahead = some 0 then ⟨⟨limit, ahead⟩, none⟩
    else ⟨⟨limit, ahead⟩, some 0⟩

/-- What may fill of an order behind `ahead` at a print of `printed` at its limit. -/
def beyondQueue (printed : Decimal) (ahead : Option Decimal) : Decimal :=
  ahead.elim 0 fun queued => max 0 (subtract printed queued)

theorem beyondQueue_nonneg (printed : Decimal) (ahead : Option Decimal) :
    0 ≤ beyondQueue printed ahead := by
  cases ahead with
  | none => exact le_rfl
  | some queued => exact le_max_left _ _

theorem printedBeyond_le {seen : QueueObservation} {side : Side} {limit price printed : Decimal}
    {countUnsignedTrades : Bool} {ahead : Option Decimal}
    (hprint : seen.print = some (price, some printed)) :
    ∀ beyond ∈ (seen.printedBeyond side limit countUnsignedTrades ahead).2,
      beyond ≤ beyondQueue printed ahead := by
  intro beyond hbeyond
  unfold QueueObservation.printedBeyond at hbeyond
  rw [hprint] at hbeyond
  cases ahead with
  | none => cases hbeyond
  | some queued =>
    dsimp only at hbeyond
    split_ifs at hbeyond
    · rw [← Option.some.inj hbeyond]
      exact le_max_right _ _
    · rw [← Option.some.inj hbeyond]
      exact beyondQueue_nonneg _ _
    · cases hbeyond

/-- **At a print at its limit an order may fill no more than what was printed beyond the
    queue ahead of it**; behind an unknown queue, nothing. -/
theorem advance_print {event : MarketEvent} {tick : Tick} {side : Side} {position : QueuePosition}
    {countUnsignedTrades : Bool} (hdata : event.data = .tick tick)
    (hprice : tick.price = position.limitPrice) :
    ∃ eligible, ((priceTimeQueue countUnsignedTrades).advance position side
        event.queueObservation).eligible = some eligible ∧
      eligible ≤ beyondQueue tick.quantity position.ahead := by
  obtain ⟨seen, hseen⟩ : ∃ seen : QueueObservation, event.queueObservation = seen := ⟨_, rfl⟩
  have hprint : seen.print = some (tick.price, some tick.quantity) ∧ seen.bid = none ∧
      seen.ask = none ∧ seen.low = none ∧ seen.high = none := by
    rw [← hseen, MarketEvent.queueObservation, hdata]
    exact ⟨rfl, rfl, rfl, rfl, rfl⟩
  obtain ⟨hprint, hbid, hask, hlow, hhigh⟩ := hprint
  have hthrough : seen.through side position.limitPrice = false := by
    cases side <;> simp [QueueObservation.through, QueueObservation.opposite,
      QueueObservation.extreme, Side.better, hprint, hbid, hask, hlow, hhigh, hprice]
  have htouched : seen.touched side position.limitPrice = false := by
    cases side <;> simp [QueueObservation.touched, QueueObservation.opposite,
      QueueObservation.extreme, hbid, hask, hlow, hhigh]
  have hshown : seen.shownAhead side position.limitPrice position.ahead = position.ahead := by
    cases side <;> simp [QueueObservation.shownAhead, QueueObservation.sameSide, hbid, hask]
  rw [hseen]
  unfold priceTimeQueue
  dsimp only
  rw [hthrough, htouched, hshown]
  simp only [Bool.false_eq_true, if_false, false_and]
  split_ifs with hany
  · obtain ⟨beyond, hsome, -⟩ := (Option.any_eq_true _ _).mp hany
    exact ⟨beyond, hsome, printedBeyond_le hprint beyond hsome⟩
  · exact ⟨0, rfl, beyondQueue_nonneg _ _⟩

end AlphaLab
