/-
  The broker mirror: what AlphaLab believes a venue holds (`broker/order.py`,
  `broker/execution.py`, `broker/account.py`, `broker/position.py`,
  `broker/state.py`), and the fills it admits (`broker/reconciliation.py`).

  * `BrokerState` holds its orders, executions and positions in registers,
    each under its own handle;
  * `classifyExecution` says what a reported fill is, `applyExecution` acts on
    it and keeps every refusal in the `ReconciliationLog`.
-/
import AlphaLab.Core.Lifecycle
import AlphaLab.Lib.Register
import Mathlib.Data.String.Basic

namespace AlphaLab

/-! ## Orders -/

/-- An order's status at the venue: a canonical one, or one of
    `BrokerOrderStatus` that exist only between AlphaLab and a venue. -/
inductive BrokerStatus where
  | canonical (status : OrderStatus)
  | pendingSubmit | submitted | pendingCancel
deriving DecidableEq

/-- `canonical_status`: the row of the table a status reads
    (`BROKER_LOCAL_EQUIVALENTS`). -/
def BrokerStatus.canonicalStatus : BrokerStatus → OrderStatus
  | canonical status => status
  | pendingSubmit => .new
  | submitted => .pending
  | pendingCancel => .cancelPending

/-- `BrokerOrder`: an order as it exists at a venue. -/
structure BrokerOrder where
  brokerOrderId : String
  omsOrderId : String
  symbol : String
  side : Side
  orderType : OrderType
  quantity : Decimal
  price : Decimal
  filledQuantity : Decimal
  averageFillPrice : Decimal
  status : BrokerStatus
  createdAt : Instant
  updatedAt : Instant
  accountId : String := ""
  tif : TimeInForce := .day
  stopPrice : Decimal := 0
deriving DecidableEq

/-- `is_terminal`: no broker-local status is. -/
def BrokerOrder.isTerminal (o : BrokerOrder) : Bool :=
  match o.status with
  | .canonical status => status.isTerminal
  | .pendingSubmit | .submitted | .pendingCancel => false

/-- `BrokerExecution`: one fill, as the venue reported it. -/
structure BrokerExecution where
  executionId : String
  brokerOrderId : String
  symbol : String
  fillQuantity : Decimal
  fillPrice : Decimal
  commission : Decimal
  timestamp : Instant
  accountId : String := ""
  externalId : String := ""
deriving DecidableEq

structure BrokerAccount where
  accountId : String
  cash : Decimal
  equity : Decimal
  buyingPower : Decimal
  margin : Decimal
  availableFunds : Decimal
  currency : String
  brokerId : String := ""
  metadata : Dict String String := Dict.empty
deriving DecidableEq

/-- Whether two accounts are equal, whatever the order of their attributes. -/
def BrokerAccount.same (a b : BrokerAccount) : Bool :=
  { a with metadata := a.metadata.sorted } = { b with metadata := b.metadata.sorted }

structure BrokerPosition where
  symbol : String
  quantity : Decimal
  averagePrice : Decimal
  marketValue : Decimal
  unrealizedPnl : Decimal
  realizedPnl : Decimal
  accountId : String := ""
  assetClass : AssetType := .equity
  marketPrice : Decimal := 0
deriving DecidableEq

/-! ## The mirror -/

inductive ConnectionStatus where
  | disconnected | connecting | connected | reconnecting | failed
deriving DecidableEq

/-- What a venue numbers its reports about: the keys of `venue_sequences`. -/
inductive Subject where
  | order (brokerOrderId : String)
  | position (symbol : String)
  | balances
deriving DecidableEq

structure BrokerState where
  brokerName : String
  connectionStatus : ConnectionStatus
  account : BrokerAccount
  positions : Register BrokerPosition.symbol := Register.empty
  orders : Register BrokerOrder.brokerOrderId := Register.empty
  executions : Register BrokerExecution.executionId := Register.empty
  venueSequences : Dict Subject ℕ := Dict.empty
deriving DecidableEq

/-- The mirror with `o` in the place of the order of its handle. -/
def BrokerState.putOrder (m : BrokerState) (o : BrokerOrder) : BrokerState :=
  { m with orders := m.orders.put o }

section
variable (m : BrokerState) (o : BrokerOrder)

@[simp] theorem putOrder_orders : (m.putOrder o).orders = m.orders.put o := rfl
@[simp] theorem putOrder_executions : (m.putOrder o).executions = m.executions := rfl
@[simp] theorem putOrder_venueSequences : (m.putOrder o).venueSequences = m.venueSequences := rfl

end

/-! ## What a reported fill is -/

inductive ExecutionOutcome where
  | applied | duplicate | unknownOrder | terminalOrder | overfill | invalid
deriving DecidableEq

/-- `is_break`: the mirror and the venue disagree about the fill. -/
def ExecutionOutcome.isBreak : ExecutionOutcome → Bool
  | applied | duplicate => false
  | unknownOrder | terminalOrder | overfill | invalid => true

structure ExecutionDecision where
  outcome : ExecutionOutcome
  execution : BrokerExecution

/-- `classify_execution`: what a reported fill is, changing nothing. -/
def classifyExecution (m : BrokerState) (e : BrokerExecution) : ExecutionOutcome :=
  if (m.executions.get? e.executionId).isSome then .duplicate
  else if e.fillQuantity ≤ 0 then .invalid
  else match m.orders.get? e.brokerOrderId with
    | none => .unknownOrder
    | some o =>
      if o.isTerminal then .terminalOrder
      else if o.quantity < o.filledQuantity + e.fillQuantity then .overfill
      else .applied

/-- `_status_after_fill`: complete, still working, or still cancelling. -/
def statusAfterFill (o : BrokerOrder) (filled : Decimal) : BrokerStatus :=
  if filled = o.quantity then .canonical .filled
  else if o.status.canonicalStatus = .cancelPending then o.status
  else .canonical .partiallyFilled

/-- The volume-weighted average of `filled` at `average` and one more fill. -/
def averageAfter (filled average quantity price : Decimal) : Decimal :=
  divide (add (multiply filled average) (multiply quantity price)) (filled + quantity)

def BrokerOrder.filledBy (o : BrokerOrder) (e : BrokerExecution) : BrokerOrder :=
  { o with
    filledQuantity := o.filledQuantity + e.fillQuantity
    averageFillPrice :=
      averageAfter o.filledQuantity o.averageFillPrice e.fillQuantity e.fillPrice
    status := statusAfterFill o (o.filledQuantity + e.fillQuantity)
    updatedAt := max o.updatedAt e.timestamp }

/-- `ReconciliationLog`: every fill that was refused. -/
structure ReconciliationLog where
  breaks : List ExecutionDecision := []
  duplicates : List ExecutionDecision := []

def ReconciliationLog.record (log : ReconciliationLog) (d : ExecutionDecision) :
    ReconciliationLog :=
  if d.outcome = .duplicate then { log with duplicates := log.duplicates ++ [d] }
  else if d.outcome.isBreak then { log with breaks := log.breaks ++ [d] }
  else log

/-- The mirror with the fill `e` of the order `o` in it. -/
def BrokerState.fill (m : BrokerState) (o : BrokerOrder) (e : BrokerExecution) : BrokerState :=
  { m.putOrder (o.filledBy e) with executions := m.executions.put e }

/-- The mirror after a reported fill: with it, if it may be applied. -/
def BrokerState.afterExecution (m : BrokerState) (e : BrokerExecution) : BrokerState :=
  if classifyExecution m e = .applied then
    (m.orders.get? e.brokerOrderId).elim m fun o => m.fill o e
  else m

def applyExecution (m : BrokerState) (e : BrokerExecution) (log : ReconciliationLog := {}) :
    BrokerState × ExecutionDecision × ReconciliationLog :=
  let decision := ⟨classifyExecution m e, e⟩
  (m.afterExecution e, decision, log.record decision)

/-! ## Facts of fills -/

theorem isTerminal_eq (o : BrokerOrder) : o.isTerminal = o.status.canonicalStatus.isTerminal := by
  rw [BrokerOrder.isTerminal]
  cases o.status <;> rfl

@[simp] theorem filledBy_quantity (o : BrokerOrder) (e : BrokerExecution) :
    (o.filledBy e).quantity = o.quantity := rfl
@[simp] theorem filledBy_filledQuantity (o : BrokerOrder) (e : BrokerExecution) :
    (o.filledBy e).filledQuantity = o.filledQuantity + e.fillQuantity := rfl
@[simp] theorem fill_orders (m : BrokerState) (o : BrokerOrder) (e : BrokerExecution) :
    (m.fill o e).orders = m.orders.put (o.filledBy e) := rfl
@[simp] theorem fill_executions (m : BrokerState) (o : BrokerOrder) (e : BrokerExecution) :
    (m.fill o e).executions = m.executions.put e := rfl

theorem classifyExecution_applied {m : BrokerState} {e : BrokerExecution} :
    classifyExecution m e = .applied ↔
      m.executions.get? e.executionId = none ∧ 0 < e.fillQuantity ∧
        ∃ o, m.orders.get? e.brokerOrderId = some o ∧ o.isTerminal = false ∧
          o.filledQuantity + e.fillQuantity ≤ o.quantity := by
  rw [classifyExecution]
  constructor
  · intro h
    split_ifs at h with hseen hpos
    cases ho : m.orders.get? e.brokerOrderId with
    | none => simp [ho] at h
    | some o =>
      rw [ho] at h
      dsimp only at h
      split_ifs at h with hterm hover
      refine ⟨by simpa using hseen, not_le.mp hpos, o, rfl, by simpa using hterm, not_lt.mp hover⟩
  · rintro ⟨hseen, hpos, o, ho, hterm, hover⟩
    simp [hseen, not_le.mpr hpos, ho, hterm, not_lt.mpr hover]

theorem classifyExecution_duplicate {m : BrokerState} {e : BrokerExecution} :
    classifyExecution m e = .duplicate ↔ ∃ held, m.executions.get? e.executionId = some held := by
  rw [← Option.isSome_iff_exists, classifyExecution]
  constructor
  · intro h
    by_contra hseen
    rw [if_neg hseen] at h
    split_ifs at h
    cases ho : m.orders.get? e.brokerOrderId with
    | none => simp [ho] at h
    | some o =>
      rw [ho] at h
      dsimp only at h
      split_ifs at h
  · intro h
    rw [if_pos h]

/-- **An applied fill** fills its order, and is recorded. -/
theorem afterExecution_applied {m : BrokerState} {e : BrokerExecution}
    (h : classifyExecution m e = .applied) :
    ∃ o, m.orders.get? e.brokerOrderId = some o ∧ o.isTerminal = false ∧ 0 < e.fillQuantity ∧
      o.filledQuantity + e.fillQuantity ≤ o.quantity ∧
      m.executions.get? e.executionId = none ∧ m.afterExecution e = m.fill o e := by
  obtain ⟨hseen, hpos, o, ho, hterm, hover⟩ := classifyExecution_applied.mp h
  refine ⟨o, ho, hterm, hpos, hover, hseen, ?_⟩
  rw [BrokerState.afterExecution, if_pos h, ho]
  rfl

end AlphaLab
