/-
  The execution pipeline's state, and what it does to one order of it
  (`runtime/execution_pipeline.py`, `execution/report.py`).

  * `PipelineState` is the order book, the allocation ledgers and the portfolio,
    which every operation moves together;
  * `releaseIfTerminal` frees what an order that has ended still holds, and every
    end comes through it (`ended`);
  * `applyReport` books one fill: the order, the portfolio, each strategy's
    position and the reservation.
-/
import AlphaLab.Allocation.Entries
import AlphaLab.Oms.Orders
import AlphaLab.Runtime.ExchangePlan

namespace AlphaLab

open Fallible

/-! ## Reports and the state -/

inductive FillStatus where
  | fullFill | partialFill | noFill | rejected | expired
deriving DecidableEq

/-- `ExecutionReport`, as far as the pipeline reads it. -/
structure ExecutionReport where
  executionId : String
  orderId : String
  assetId : String
  timestamp : Instant
  fillPrice : Decimal
  fillQuantity : Decimal
  commission : Decimal
  currency : String
  status : FillStatus
deriving DecidableEq

inductive ExecutionRouting where
  | simulated | external | algorithmic
deriving DecidableEq

structure PipelineConfig where
  routing : ExecutionRouting := .simulated
  settlementCurrencies : List String
  budgetCurrency : String := ""
  economics : String → Option InstrumentEconomics := fun _ => none
  /-- `_settles_at`; `none` where the instrument needs a calendar nobody declared. -/
  settlesAt : String → Instant → Option (Option Instant) := fun _ _ => some none
  purchasedOnMargin : String → Bool := fun _ => false

inductive PipelineRefusal where
  | oms (refusal : OmsRefusal)
  | ledger (refusal : LedgerRefusal)
  | portfolio (refusal : PortfolioRefusal)
  | otherCurrency (executionId currency : String)
  /-- `_settles_at`: a declared settlement rule without a declared calendar. -/
  | noSettlementCalendar (assetId : String)
  | notAnOutcome (outcome : OrderStatus)
  | notOneContribution (orderId : String)
  | workingAtVenue (assetId : String)
  | exchange (refusal : ExchangeRefusal)
  /-- Not a call of this moment: a batch is routed before the next is allocated. -/
  | routing

/-- `ExecutionPipelineState`, as far as orders are worked in it. -/
structure PipelineState where
  orders : OrderBook
  allocation : AllocationState
  portfolio : PortfolioState
  executions : List ExecutionReport := []
  marketPrices : Dict String Decimal := Dict.empty

inductive OrderEnding where
  | rejected | cancelled | expired

namespace OrderEnding

def event : OrderEnding → StatusEventKind
  | rejected => .rejected
  | cancelled => .cancelled
  | expired => .expired

def status : OrderEnding → OrderStatus
  | rejected => .rejected
  | cancelled => .cancelled
  | expired => .expired

/-- The ending a terminal outcome names, if it is one of `_TERMINAL_OUTCOMES`. -/
def ofStatus : OrderStatus → Option OrderEnding
  | .rejected => some rejected
  | .cancelled => some cancelled
  | .expired => some expired
  | .new | .pending | .accepted | .partiallyFilled | .filled | .cancelPending => none

end OrderEnding

namespace PipelineState

variable (s : PipelineState)

def withAllocation (allocation : AllocationState) : PipelineState :=
  { s with allocation := allocation }

def putOrder (order : Order) : PipelineState := { s with orders := s.orders.put order }

/-! ## Ends -/

def moveOrder (orderId : String) (move : Order → Except OmsRefusal Order) :
    Except PipelineRefusal PipelineState := do
  let orders ← (s.orders.update orderId move).mapError .oms
  pure { s with orders := orders }

/-- `_release_reservation`: free what an order reserves, if it reserves anything. -/
def releaseReservation (orderId : String) (timestamp : Instant) : PipelineState :=
  s.withAllocation ((s.allocation.releaseReservation orderId timestamp).toOption.getD s.allocation)

/-- `_retire_dropped_request`: free what a request reserves and end its contributions. -/
def retireDroppedRequest (orderId : String) (timestamp : Instant) : PipelineState :=
  let released := s.releaseReservation orderId timestamp
  released.withAllocation (released.allocation.retireContributions orderId)

/-- `_release_if_terminal`: free whatever an order that has ended still holds. -/
def releaseIfTerminal (orderId : String) (timestamp : Instant) : PipelineState :=
  match s.orders.get? orderId with
  | none => s
  | some order => if order.isOpen then s else s.retireDroppedRequest orderId timestamp

def ended (orderId : String) (ending : OrderEnding) (timestamp : Instant) :
    Except PipelineRefusal PipelineState := do
  let moved ← s.moveOrder orderId (·.moved ending.event timestamp)
  pure (moved.releaseIfTerminal orderId timestamp)

def endUnfilled (orderId : String) (timestamp : Instant) : Except PipelineRefusal PipelineState :=
  s.ended orderId .cancelled timestamp

def expire (orderId : String) (timestamp : Instant) : Except PipelineRefusal PipelineState :=
  s.ended orderId .expired timestamp

/-- `apply_terminal_outcome`: end a working order the venue has reported dead. -/
def applyTerminalOutcome (orderId : String) (outcome : OrderStatus) (timestamp : Instant) :
    Except PipelineRefusal PipelineState := do
  let ending ← orRefuse (OrderEnding.ofStatus outcome) (.notAnOutcome outcome)
  s.ended orderId ending timestamp

/-- `_withdraw_partial_remainder`: retire what a partial fill left behind. -/
def withdrawPartialRemainder (orderId : String) (timestamp : Instant) :
    Except PipelineRefusal PipelineState := do
  let order ← (s.orders.find orderId).mapError .oms
  if order.status = .partiallyFilled then s.ended orderId .cancelled timestamp else pure s

/-- `_submit_and_accept_order`, the expiry already found. -/
def submitAndAccept (request : OrderRequest) (expireAt : Option Instant) (timestamp : Instant) :
    Except PipelineRefusal PipelineState := do
  let submitted ← (s.orders.submit (request.toOrder expireAt) timestamp).mapError .oms
  let accepted ← (submitted.update request.orderId (·.accept timestamp)).mapError .oms
  pure { s with orders := accepted }

/-! ## Fills -/

/-- `_apply_report_to_oms` -/
def reportToOms (report : ExecutionReport) (orderId : String) :
    Except PipelineRefusal PipelineState :=
  match report.status with
  | .fullFill =>
    s.moveOrder orderId (·.fill report.fillQuantity report.fillPrice report.timestamp)
  | .partialFill =>
    s.moveOrder orderId (·.partialFill report.fillQuantity report.fillPrice report.timestamp)
  | .noFill | .rejected | .expired => pure s

/-- `_apply_report_to_portfolio` -/
def reportToPortfolio (c : PipelineConfig) (report : ExecutionReport) (side : Side) :
    Except PipelineRefusal PipelineState := do
  require (report.currency ∈ c.settlementCurrencies)
    (.otherCurrency report.executionId report.currency)
  let settlesAt ← orRefuse (c.settlesAt report.assetId report.timestamp)
    (.noSettlementCalendar report.assetId)
  let quantity := side.signed report.fillQuantity
  let portfolio ← (applyFill s.portfolio {
    assetId := report.assetId
    quantity := quantity
    price := report.fillPrice
    commission := report.commission
    timestamp := report.timestamp
    currency := report.currency
    economics := c.economics report.assetId
    settlesAt := settlesAt
    financed := decide (0 < quantity) && c.purchasedOnMargin report.assetId }).mapError .portfolio
  pure { s with portfolio := portfolio }

end PipelineState

/-- `_unit_value`: the price times the instrument's multiplier. -/
def unitValue (c : PipelineConfig) (assetId : String) (price : Decimal) : Decimal :=
  match c.economics assetId with
  | none => price
  | some e => if e.multiplier = 1 then price else multiply price e.multiplier

def inBudgetCurrency (c : PipelineConfig) (rates : FxRates) (amount : Decimal) (currency : String)
    (asOf : Instant) : Except PipelineRefusal Decimal :=
  if c.budgetCurrency = "" ∨ currency = c.budgetCurrency then pure amount
  else do
    let conversion ←
      (rates.convert amount currency c.budgetCurrency (some asOf) none).mapError .portfolio
    pure conversion.converted

def executedNotional (c : PipelineConfig) (rates : FxRates) (report : ExecutionReport) :
    Except PipelineRefusal Decimal :=
  inBudgetCurrency c rates
    |unitValue c report.assetId (multiply report.fillQuantity report.fillPrice)|
    report.currency report.timestamp

namespace PipelineState

variable (s : PipelineState)

/-- A report in the allocation ledgers: each strategy's share, and the reservation. -/
def reportToAllocation (c : PipelineConfig) (rates : FxRates) (report : ExecutionReport)
    (side : Side) : Except PipelineRefusal PipelineState := do
  let notional ← executedNotional c rates report
  let recorded ← (s.allocation.recordFill report.orderId report.assetId
    (side.signed report.fillQuantity) (some notional)).mapError .ledger
  pure (s.withAllocation (recorded.applyExecution report.orderId notional report.timestamp))

/-- One report of `_apply_reports`. -/
def applyReport (c : PipelineConfig) (rates : FxRates) (order : Order)
    (report : ExecutionReport) : Except PipelineRefusal PipelineState := do
  let filled ← s.reportToOms report order.orderId
  let booked ← filled.reportToPortfolio c report order.side
  let reconciled ← booked.reportToAllocation c rates report order.side
  pure (reconciled.releaseIfTerminal order.orderId report.timestamp)

/-- `_record_venue_execution`: a venue's report enters the execution history. -/
def recordVenueExecution (report : ExecutionReport) : PipelineState :=
  { s with executions := s.executions ++ [report] }

/-- `execution_id in execution.reports` -/
def reported (executionId : String) : Prop :=
  ∃ report ∈ s.executions, report.executionId = executionId

instance (executionId : String) : Decidable (s.reported executionId) :=
  inferInstanceAs (Decidable (∃ report ∈ s.executions, report.executionId = executionId))

/-- `apply_execution_report`: one report that did not come from the simulator. -/
def applyExecutionReport (c : PipelineConfig) (rates : FxRates) (order : Order)
    (report : ExecutionReport) : Except PipelineRefusal PipelineState :=
  if s.reported report.executionId then pure s
  else (s.recordVenueExecution report).applyReport c rates order report

def Freed (orderId : String) : Prop :=
  s.allocation.reservations.get? orderId = none ∧ s.allocation.contributions.get? orderId = none

/-- `t` differs from `s` at most in one order and its entries in the ledgers. -/
structure Beside (orderId : String) (s t : PipelineState) : Prop where
  orders : ∀ k, k ≠ orderId → t.orders.get? k = s.orders.get? k
  reservations : ∀ k, k ≠ orderId →
    t.allocation.reservations.get? k = s.allocation.reservations.get? k
  contributions : ∀ k, k ≠ orderId →
    t.allocation.contributions.get? k = s.allocation.contributions.get? k
  budget : t.allocation.budget = s.allocation.budget
  history : t.allocation.history = s.allocation.history
  marketPrices : t.marketPrices = s.marketPrices

end PipelineState

/-! ## Facts of ends -/

variable {ending : OrderEnding}

namespace OrderEnding

theorem next_eq_some {status target : OrderStatus} {filled : Decimal}
    (h : nextOrderStatus status (.status ending.event) filled = some target) :
    target = ending.status ∧ status.isTerminal = false := by
  have hrow : ∀ (e : OrderEnding) (s t : OrderStatus),
      orderTransitions s (.status e.event) = some t → t = e.status ∧ s.isTerminal = false := by
    intro e s t
    revert e s t
    rintro (_ | _ | _) (_ | _ | _ | _ | _ | _ | _ | _ | _) (_ | _ | _ | _ | _ | _ | _ | _ | _) <;>
      decide
  rcases nextOrderStatus_eq_some h with ht | ⟨-, hevent, -⟩
  · exact hrow ending status target ht
  · cases ending <;> cases hevent

theorem status_isTerminal (ending : OrderEnding) : ending.status.isTerminal = true := by
  cases ending <;> rfl

end OrderEnding

namespace PipelineState

section
variable {s t u : PipelineState} {orderId : String} {timestamp : Instant}

theorem Beside.refl (orderId : String) (s : PipelineState) : Beside orderId s s :=
  ⟨fun _ _ => rfl, fun _ _ => rfl, fun _ _ => rfl, rfl, rfl, rfl⟩

theorem Beside.trans (h : Beside orderId s t) (h' : Beside orderId t u) : Beside orderId s u where
  orders k hk := (h'.orders k hk).trans (h.orders k hk)
  reservations k hk := (h'.reservations k hk).trans (h.reservations k hk)
  contributions k hk := (h'.contributions k hk).trans (h.contributions k hk)
  budget := h'.budget.trans h.budget
  history := h'.history.trans h.history
  marketPrices := h'.marketPrices.trans h.marketPrices

theorem moveOrder_ok {move : Order → Except OmsRefusal Order} :
    s.moveOrder orderId move = .ok t ↔
      ∃ o o', s.orders.get? orderId = some o ∧ move o = .ok o' ∧
        t = s.putOrder o' := by
  simp only [moveOrder, bind_ok, mapError_ok, update_ok, pure_ok]
  constructor
  · rintro ⟨_, ⟨o, o', ho, ho', rfl⟩, rfl⟩
    exact ⟨o, o', ho, ho', rfl⟩
  · rintro ⟨o, o', ho, ho', rfl⟩
    exact ⟨_, ⟨o, o', ho, ho', rfl⟩, rfl⟩

theorem releaseReservation_of_none (h : s.allocation.reservations.get? orderId = none) :
    s.releaseReservation orderId timestamp = s := by
  have hrefused : (s.allocation.releaseReservation orderId timestamp).toOption = none := by
    simp [AllocationState.releaseReservation, orRefuse, h, bind, Except.bind, Except.toOption]
  rw [releaseReservation, hrefused]
  rfl

theorem releaseReservation_of_some {released : Decimal}
    (h : s.allocation.reservations.get? orderId = some released) :
    s.releaseReservation orderId timestamp = s.withAllocation { s.allocation with
      notionalAllocated := subtract s.allocation.notionalAllocated released
      reservations := s.allocation.reservations.delete orderId
      events := s.allocation.events ++ [.reservationReleased timestamp orderId released] } := by
  have hreleased := (@releaseReservation_ok s.allocation _ orderId timestamp).mpr ⟨released, h, rfl⟩
  rw [releaseReservation, hreleased]
  rfl

theorem retireDroppedRequest_entries (s : PipelineState) (orderId : String) (timestamp : Instant) :
    (s.retireDroppedRequest orderId timestamp).allocation.reservations =
        s.allocation.reservations.delete orderId ∧
      (s.retireDroppedRequest orderId timestamp).allocation.contributions =
        s.allocation.contributions.delete orderId ∧
      (s.retireDroppedRequest orderId timestamp).allocation.budget = s.allocation.budget ∧
      (s.retireDroppedRequest orderId timestamp).allocation.history = s.allocation.history ∧
      (s.retireDroppedRequest orderId timestamp).allocation.strategyPositions =
        s.allocation.strategyPositions ∧
      (s.retireDroppedRequest orderId timestamp).allocation.notionalAllocated =
        (s.allocation.reservations.get? orderId).elim s.allocation.notionalAllocated
          (subtract s.allocation.notionalAllocated) ∧
      (s.retireDroppedRequest orderId timestamp).allocation.events =
        s.allocation.events ++ ((s.allocation.reservations.get? orderId).map
          (AllocationEvent.reservationReleased timestamp orderId)).toList := by
  unfold retireDroppedRequest
  cases hheld : s.allocation.reservations.get? orderId with
  | none =>
    obtain ⟨hc, hr, hn, hb, he, hh, hp⟩ :=
      AlphaLab.retireContributions_entries (s := s.allocation) orderId
    rw [releaseReservation_of_none hheld]
    exact ⟨hr.trans (Dict.delete_of_none hheld).symm, hc, hb, hh, hp, hn,
      he.trans (List.append_nil _).symm⟩
  | some released =>
    rw [releaseReservation_of_some hheld]
    obtain ⟨hc, hr, hn, hb, he, hh, hp⟩ := AlphaLab.retireContributions_entries orderId
      (s := { s.allocation with
        notionalAllocated := subtract s.allocation.notionalAllocated released
        reservations := s.allocation.reservations.delete orderId
        events := s.allocation.events ++ [.reservationReleased timestamp orderId released] })
    exact ⟨hr, hc, hb, hh, hp, hn, he⟩

@[simp] theorem retireDroppedRequest_orders :
    (s.retireDroppedRequest orderId timestamp).orders = s.orders := rfl
@[simp] theorem retireDroppedRequest_portfolio :
    (s.retireDroppedRequest orderId timestamp).portfolio = s.portfolio := rfl
@[simp] theorem retireDroppedRequest_marketPrices :
    (s.retireDroppedRequest orderId timestamp).marketPrices = s.marketPrices := rfl

theorem retireDroppedRequest_freed (s : PipelineState) (orderId : String) (timestamp : Instant) :
    (s.retireDroppedRequest orderId timestamp).Freed orderId := by
  obtain ⟨hr, hc, -⟩ := retireDroppedRequest_entries s orderId timestamp
  exact ⟨by rw [hr, Dict.get?_delete_self], by rw [hc, Dict.get?_delete_self]⟩

theorem retireDroppedRequest_beside (s : PipelineState) (orderId : String) (timestamp : Instant) :
    Beside orderId s (s.retireDroppedRequest orderId timestamp) := by
  obtain ⟨hr, hc, hb, hh, -⟩ := retireDroppedRequest_entries s orderId timestamp
  refine ⟨fun _ _ => rfl, ?_, ?_, hb, hh, rfl⟩
  · intro k hk
    rw [hr, Dict.get?_delete, if_neg hk]
  · intro k hk
    rw [hc, Dict.get?_delete, if_neg hk]

variable {o : Order}

theorem releaseIfTerminal_of_open (ho : s.orders.get? orderId = some o) (hopen : o.isOpen = true) :
    s.releaseIfTerminal orderId timestamp = s := by
  simp [releaseIfTerminal, ho, hopen]

theorem releaseIfTerminal_of_closed (ho : s.orders.get? orderId = some o) (hopen : o.isOpen = false)
    : s.releaseIfTerminal orderId timestamp = s.retireDroppedRequest orderId timestamp := by
  simp [releaseIfTerminal, ho, hopen]

theorem releaseIfTerminal_cases (s : PipelineState) (orderId : String) (timestamp : Instant) :
    s.releaseIfTerminal orderId timestamp = s ∨
      s.releaseIfTerminal orderId timestamp = s.retireDroppedRequest orderId timestamp := by
  unfold releaseIfTerminal
  split
  · exact Or.inl rfl
  · split_ifs
    · exact Or.inl rfl
    · exact Or.inr rfl

theorem releaseIfTerminal_beside : Beside orderId s (s.releaseIfTerminal orderId timestamp) := by
  rcases releaseIfTerminal_cases s orderId timestamp with h | h
  · rw [h]
    exact .refl orderId s
  · rw [h]
    exact retireDroppedRequest_beside s orderId timestamp

@[simp] theorem releaseIfTerminal_orders :
    (s.releaseIfTerminal orderId timestamp).orders = s.orders := by
  rcases releaseIfTerminal_cases s orderId timestamp with h | h <;> rw [h]
  rfl

@[simp] theorem releaseIfTerminal_executions :
    (s.releaseIfTerminal orderId timestamp).executions = s.executions := by
  rcases releaseIfTerminal_cases s orderId timestamp with h | h <;> rw [h]
  rfl

theorem put_beside {o o' : Order} (ho : s.orders.get? orderId = some o)
    (hid : o'.orderId = o.orderId) : Beside orderId s (s.putOrder o') := by
  refine ⟨?_, fun _ _ => rfl, fun _ _ => rfl, rfl, rfl, rfl⟩
  intro k hk
  refine Register.get?_put_of_ne _ ?_
  rwa [hid, Register.key_of_get? ho]

/-- **An order ended**: it was open, it takes the ending's status, and nothing of the
    ledgers is held for it any more; every other order is as it was. -/
theorem ended_ok (h : s.ended orderId ending timestamp = .ok t) :
    ∃ o, s.orders.get? orderId = some o ∧ o.isOpen = true ∧
      t = (s.putOrder { o with status := ending.status, updatedAt := timestamp }).retireDroppedRequest
        orderId timestamp := by
  simp only [ended, bind_ok, moveOrder_ok, pure_ok] at h
  obtain ⟨_, ⟨o, o', ho, hmoved, rfl⟩, rfl⟩ := h
  obtain ⟨status, hnext, rfl⟩ := moved_ok.mp hmoved
  obtain ⟨rfl, hopen⟩ := OrderEnding.next_eq_some hnext
  refine ⟨o, ho, by simp [Order.isOpen, hopen], ?_⟩
  have hput : (s.orders.put { o with status := ending.status, updatedAt := timestamp }).get?
      orderId = some { o with status := ending.status, updatedAt := timestamp } := by
    rw [← Register.key_of_get? ho]
    exact Register.get?_put_self _ _
  exact releaseIfTerminal_of_closed hput (by simp [Order.isOpen, OrderEnding.status_isTerminal])

theorem ended_spec (h : s.ended orderId ending timestamp = .ok t) :
    (∃ o, s.orders.get? orderId = some o ∧ o.isOpen = true ∧ t.orders.get? orderId =
        some { o with status := ending.status, updatedAt := timestamp }) ∧
      t.Freed orderId ∧ Beside orderId s t ∧ t.portfolio = s.portfolio ∧
      t.executions = s.executions := by
  obtain ⟨o, ho, hopen, rfl⟩ := ended_ok h
  refine ⟨⟨o, ho, hopen, ?_⟩, retireDroppedRequest_freed _ _ _, ?_, rfl, rfl⟩
  · rw [retireDroppedRequest_orders, ← Register.key_of_get? ho]
    exact Register.get?_put_self _ _
  · have hput : Beside orderId s
        (s.putOrder { o with status := ending.status, updatedAt := timestamp }) :=
      put_beside ho rfl
    exact hput.trans (retireDroppedRequest_beside _ _ _)

/-- **An order placed**: it is new to the book, and works there. -/
theorem submitAndAccept_ok {request : OrderRequest} {expireAt : Option Instant}
    (h : s.submitAndAccept request expireAt timestamp = .ok t) :
    s.orders.get? request.orderId = none ∧ ∃ o : Order, o.orderId = request.orderId ∧
      o = { request.toOrder expireAt with status := .accepted, updatedAt := timestamp } ∧
      t = { s with orders := (s.orders.put (request.toOrder expireAt)).put o } := by
  simp only [submitAndAccept, bind_ok, mapError_ok, pure_ok] at h
  obtain ⟨_, hsubmit, _, hupdate, rfl⟩ := h
  obtain ⟨hnew, -, rfl⟩ := submit_ok.mp hsubmit
  obtain ⟨o, o', ho, haccept, rfl⟩ := update_ok.mp hupdate
  obtain rfl := Option.some.inj
    ((Register.get?_put_self s.orders (request.toOrder expireAt)).symm.trans ho)
  obtain ⟨status, hnext, rfl⟩ := moved_ok.mp haccept
  have haccepted : status = .accepted := (Option.some.inj hnext).symm
  subst haccepted
  exact ⟨hnew, _, rfl, rfl, rfl⟩

variable {c : PipelineConfig} {report : ExecutionReport}

/-- **One report booked**: the order, the portfolio, the strategies' positions and the
    reservation, and the order freed if that ended it. -/
theorem applyReport_ok {rates : FxRates} {order : Order} :
    s.applyReport c rates order report = .ok t ↔
      ∃ filled booked notional recorded,
        s.reportToOms report order.orderId = .ok filled ∧
        filled.reportToPortfolio c report order.side = .ok booked ∧
        executedNotional c rates report = .ok notional ∧
        booked.allocation.recordFill report.orderId report.assetId
          (order.side.signed report.fillQuantity) (some notional) = .ok recorded ∧
        t = (booked.withAllocation (recorded.applyExecution report.orderId notional
          report.timestamp)).releaseIfTerminal order.orderId report.timestamp := by
  simp only [applyReport, reportToAllocation, bind_ok, mapError_ok, pure_ok]
  constructor
  · rintro ⟨filled, hfilled, booked, hbooked, _, ⟨notional, hnotional, recorded, hrecorded, rfl⟩,
      rfl⟩
    exact ⟨filled, booked, notional, recorded, hfilled, hbooked, hnotional, hrecorded, rfl⟩
  · rintro ⟨filled, booked, notional, recorded, hfilled, hbooked, hnotional, hrecorded, rfl⟩
    exact ⟨filled, hfilled, booked, hbooked, _, ⟨notional, hnotional, recorded, hrecorded, rfl⟩,
      rfl⟩

/-- What a report does to the order book: one order filled, in part or in full. -/
theorem reportToOms_ok (h : s.reportToOms report orderId = .ok t) :
    t = s ∧ report.status ≠ .fullFill ∧ report.status ≠ .partialFill ∨
      ∃ o o', s.orders.get? orderId = some o ∧
        (report.status = .fullFill ∧
            o.fill report.fillQuantity report.fillPrice report.timestamp = .ok o' ∨
          report.status = .partialFill ∧
            o.partialFill report.fillQuantity report.fillPrice report.timestamp = .ok o') ∧
        t = s.putOrder o' := by
  unfold reportToOms at h
  cases hstatus : report.status with
  | fullFill =>
    rw [hstatus] at h
    obtain ⟨o, o', ho, ho', rfl⟩ := moveOrder_ok.mp h
    exact Or.inr ⟨o, o', ho, Or.inl ⟨rfl, ho'⟩, rfl⟩
  | partialFill =>
    rw [hstatus] at h
    obtain ⟨o, o', ho, ho', rfl⟩ := moveOrder_ok.mp h
    exact Or.inr ⟨o, o', ho, Or.inr ⟨rfl, ho'⟩, rfl⟩
  | noFill | rejected | expired =>
    rw [hstatus] at h
    exact Or.inl ⟨(pure_ok.mp h).symm, by decide, by decide⟩

theorem reportToPortfolio_ok {side : Side} (h : s.reportToPortfolio c report side = .ok t) :
    report.currency ∈ c.settlementCurrencies ∧
      ∃ f portfolio, f.assetId = report.assetId ∧ f.quantity = side.signed report.fillQuantity ∧
        applyFill s.portfolio f = .ok portfolio ∧ t = { s with portfolio := portfolio } := by
  simp only [reportToPortfolio, bind_ok, require_ok, orRefuse_ok, mapError_ok, pure_ok,
    exists_const] at h
  obtain ⟨hcurrency, settlesAt, -, portfolio, hportfolio, rfl⟩ := h
  exact ⟨hcurrency, _, portfolio, rfl, rfl, hportfolio, rfl⟩

/-- The entry of an order that executed: its contributions stay, and of its reservation
    what the execution left. -/
theorem applyExecution_beside (a : AllocationState) (orderId : String) (notional : Decimal)
    (timestamp : Instant) :
    (a.applyExecution orderId notional timestamp).contributions = a.contributions ∧
      (a.applyExecution orderId notional timestamp).budget = a.budget ∧
      (a.applyExecution orderId notional timestamp).history = a.history ∧
      ∀ k, k ≠ orderId → (a.applyExecution orderId notional timestamp).reservations.get? k =
        a.reservations.get? k := by
  refine ⟨rfl, rfl, rfl, ?_⟩
  intro k hk
  unfold AllocationState.applyExecution
  dsimp only
  split
  · rfl
  · split_ifs
    · rw [Dict.get?_delete, if_neg hk]
    · rw [Dict.get?_set_of_ne _ _ hk]

theorem applyReport_beside {rates : FxRates} {order : Order}
    (horder : report.orderId = order.orderId) (h : s.applyReport c rates order report = .ok t) :
    Beside order.orderId s t := by
  obtain ⟨filled, booked, notional, recorded, hfilled, hbooked, -, hrecorded, rfl⟩ :=
    applyReport_ok.mp h
  have homs : Beside order.orderId s filled := by
    rcases reportToOms_ok hfilled with ⟨rfl, -⟩ | ⟨o, o', ho, hmove, rfl⟩
    · exact .refl _ _
    · refine put_beside ho ?_
      rcases hmove with ⟨-, hfill⟩ | ⟨-, hfill⟩
      · obtain ⟨status, -, -, -, rfl⟩ := AlphaLab.fill_ok.mp hfill
        rfl
      · obtain ⟨status, -, -, -, rfl⟩ := AlphaLab.partialFill_ok.mp hfill
        rfl
  obtain ⟨-, f, portfolio, -, -, -, rfl⟩ := reportToPortfolio_ok hbooked
  have hkept := recordFill_kept hrecorded
  obtain ⟨hc, hb, hh, hr⟩ :=
    applyExecution_beside recorded report.orderId notional report.timestamp
  refine (homs.trans ?_).trans releaseIfTerminal_beside
  refine ⟨fun _ _ => rfl, ?_, ?_, hb.trans hkept.budget, hh.trans hkept.history, rfl⟩
  · intro k hk
    exact (hr k (horder ▸ hk)).trans (congrArg (·.get? k) hkept.reservations)
  · intro k _
    exact congrArg (·.get? k) (hc.trans hkept.contributions)

end

end PipelineState

end AlphaLab
