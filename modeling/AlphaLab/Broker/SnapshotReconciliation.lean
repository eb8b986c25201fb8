/-
  A venue snapshot against the mirror (`reconcile_snapshot` of `broker/reconciliation.py`).

  * `freshness` judges a snapshot by the newest instant stored on the mirror's orders and fills,
    and only a `CURRENT` one is compared, record by record (`reconcileSnapshot`);
  * `outgrown_never_compared`: a snapshot the mirror has outgrown is never compared, as long as
    what changes the mirror beside its orders comes no later than they moved;
  * `outgrown_compared`: a position reported later moves no order.

  The digests that identify snapshots and results are left out.
-/
import AlphaLab.Broker.Consistency
import AlphaLab.Lib.SortBy

namespace AlphaLab

open Fallible

/-! ## Snapshots -/

/-- `VenueSnapshot`: everything a venue reported about one account, at one instant. -/
structure VenueSnapshot where
  asOf : Instant
  orders : List BrokerOrder
  executions : Option (List BrokerExecution)
  positions : Option (List BrokerPosition)
  account : Option BrokerAccount

inductive SnapshotFreshness where
  | current | predatesMirror | tooOld | fromTheFuture
deriving DecidableEq

/-- `SnapshotDivergenceKind`, in its order of declaration. -/
inductive SnapshotDivergenceKind where
  | missingOrder | unknownOrder | orderQuantity | orderPrice | orderFilledQuantity | orderStatus
  | missingExecution | unknownExecution | executionMismatch | positionQuantity | balance
  | accountIdentity | duplicateEvidence
deriving DecidableEq

structure SnapshotDivergence where
  kind : SnapshotDivergenceKind
  key : String
  held : Option String
  remote : Option String
  reason : String

structure SnapshotReconciliation where
  freshness : SnapshotFreshness
  divergences : List SnapshotDivergence := []
  unexamined : List String
  comparedOrders : ℕ := 0
  comparedExecutions : ℕ := 0
  comparedPositions : ℕ := 0

/-- The snapshot is older than any: `max_age_seconds` is negative. -/
structure NegativeBudget where
  maxAgeSeconds : ℚ

def OrderStatus.text : OrderStatus → String
  | new => "new"
  | pending => "pending"
  | accepted => "accepted"
  | partiallyFilled => "partially_filled"
  | filled => "filled"
  | cancelPending => "cancel_pending"
  | cancelled => "cancelled"
  | rejected => "rejected"
  | expired => "expired"

def BrokerStatus.text : BrokerStatus → String
  | canonical status => status.text
  | pendingSubmit => "BrokerOrderStatus.PENDING_SUBMIT"
  | submitted => "BrokerOrderStatus.SUBMITTED"
  | pendingCancel => "BrokerOrderStatus.PENDING_CANCEL"

/-- `BROKER_STATUS_EQUIVALENTS` -/
def BrokerStatus.equivalents : BrokerStatus → List OrderStatus
  | canonical status => [status]
  | pendingSubmit | submitted => [.new, .pending, .accepted]
  | pendingCancel => [.cancelPending, .accepted, .partiallyFilled]

/-- `_statuses_consistent` -/
def statusesConsistent (held remote : BrokerStatus) : Bool :=
  held = remote || match held, remote with
    | .canonical _, .canonical _ => false
    | held, .canonical status => status ∈ held.equivalents
    | .canonical status, remote => status ∈ remote.equivalents
    | _, _ => false

section
variable {α : Type} (key : α → String) (reported : List α)

/-- `_duplicated` -/
def duplicated (keys : List String) : List String := keys.dedup.filter fun k => 1 < keys.count k

def reportedOnce : List α := reported.filter fun a => key a ∉ duplicated (reported.map key)

def duplicateEvidence (each every : String) : List SnapshotDivergence :=
  (sortBy id (duplicated (reported.map key))).map fun k =>
    ⟨.duplicateEvidence, k, none, some (toString ((reported.map key).count k) ++ " " ++ every),
      "The venue reports this " ++ each ++ " more than once; it is not compared."⟩

end

/-! ## Divergences -/

def differs (str : Decimal → String) (kind : SnapshotDivergenceKind) (key reason : String)
    (mine theirs : Decimal) : List SnapshotDivergence :=
  if mine = theirs then [] else [⟨kind, key, some (str mine), some (str theirs), reason⟩]

section
variable (str : Decimal → String) (m : BrokerState)

def orderFields (held reported : BrokerOrder) : List SnapshotDivergence :=
  let key := reported.brokerOrderId
  differs str .orderQuantity key "order_quantity differs." held.quantity reported.quantity ++
    differs str .orderPrice key "order_price differs." held.price reported.price ++
    differs str .orderFilledQuantity key "order_filled_quantity differs." held.filledQuantity
      reported.filledQuantity ++
    if statusesConsistent held.status reported.status then []
    else [⟨.orderStatus, key, some held.status.text, some reported.status.text,
      "The two statuses cannot both be true of one order."⟩]

/-- `_order_divergences` -/
def orderDivergences (orders : List BrokerOrder) : List SnapshotDivergence :=
  let remote := reportedOnce (·.brokerOrderId) orders
  let line (o : BrokerOrder) := o.status.text ++ " " ++ str o.quantity ++ " " ++ o.symbol
  duplicateEvidence (·.brokerOrderId) orders "order" "orders" ++
    (sortBy (·.brokerOrderId) m.orders.values).flatMap (fun held =>
      if held.brokerOrderId ∈ remote.map (·.brokerOrderId) ∨
          held.brokerOrderId ∈ duplicated (orders.map (·.brokerOrderId)) ∨ held.isTerminal then []
      else [⟨.missingOrder, held.brokerOrderId, some (line held), none,
        "The mirror holds this order working and the venue does not report it."⟩]) ++
    (sortBy (·.brokerOrderId) remote).flatMap fun reported =>
      match m.orders.get? reported.brokerOrderId with
      | none => [⟨.unknownOrder, reported.brokerOrderId, none, some (line reported),
        "The venue reports an order the mirror does not hold."⟩]
      | some held => orderFields str held reported

def executionFields (held reported : BrokerExecution) : List SnapshotDivergence :=
  let key := reported.executionId
  let field (label : String) := "The fill's " ++ label ++ " differs."
  differs str .executionMismatch key (field "quantity") held.fillQuantity reported.fillQuantity ++
    differs str .executionMismatch key (field "price") held.fillPrice reported.fillPrice ++
    differs str .executionMismatch key (field "commission") held.commission reported.commission ++
    if held.brokerOrderId = reported.brokerOrderId then []
    else [⟨.executionMismatch, key, some held.brokerOrderId, some reported.brokerOrderId,
      field "order"⟩]

/-- `_execution_divergences`: fills are expected for the orders reported, and only for those. -/
def executionDivergences (executions : List BrokerExecution) (reportedOrders : List String) :
    List SnapshotDivergence :=
  let remote := reportedOnce (·.executionId) executions
  let line (x : BrokerExecution) :=
    str x.fillQuantity ++ " " ++ x.symbol ++ " @ " ++ str x.fillPrice
  duplicateEvidence (·.executionId) executions "fill" "fills" ++
    (sortBy (·.executionId) remote).flatMap (fun reported =>
      match m.executions.get? reported.executionId with
      | none => [⟨.unknownExecution, reported.executionId, none, some (line reported),
        "The venue reports a fill the mirror has not applied."⟩]
      | some held => executionFields str held reported) ++
    (sortBy (·.executionId) m.executions.values).flatMap fun held =>
      if held.executionId ∈ remote.map (·.executionId) ∨
          held.executionId ∈ duplicated (executions.map (·.executionId)) ∨
          held.brokerOrderId ∉ reportedOrders then []
      else [⟨.missingExecution, held.executionId, some (line held), none,
        "The mirror applied a fill for an order the venue reports, and the venue does not report the fill."⟩]

def sizeHeld (symbol : String) : Decimal := ((m.positions.get? symbol).map (·.quantity)).getD 0

def sizeReported (positions : List BrokerPosition) (symbol : String) : Decimal :=
  ((positions.find? (·.symbol = symbol)).map (·.quantity)).getD 0

def comparedSymbols (positions : List BrokerPosition) : List String :=
  (m.positions.values.map (·.symbol) ++
    (reportedOnce (·.symbol) positions).map (·.symbol)).dedup.filter
      fun symbol => symbol ∉ duplicated (positions.map (·.symbol))

/-- `_position_divergences` -/
def positionDivergences (positions : List BrokerPosition) : List SnapshotDivergence :=
  let remote := reportedOnce (·.symbol) positions
  duplicateEvidence (·.symbol) positions "position" "positions" ++
    (sortBy id (comparedSymbols m positions)).flatMap fun symbol =>
      let mine := sizeHeld m symbol
      let theirs := sizeReported remote symbol
      differs str .positionQuantity symbol
        (if (m.positions.get? symbol).isNone ∨ mine = 0 then
          "The venue reports a position the mirror does not hold."
        else if symbol ∉ remote.map (·.symbol) ∨ theirs = 0 then
          "The mirror holds a position the venue does not report."
        else "The position sizes differ.") mine theirs

/-- `_account_divergences` -/
def accountDivergences (account : BrokerAccount) : List SnapshotDivergence :=
  let held := m.account
  if held.accountId ≠ account.accountId ∨ held.currency ≠ account.currency then
    [⟨.accountIdentity, "account", some (held.accountId ++ " in " ++ held.currency),
      some (account.accountId ++ " in " ++ account.currency),
      "The snapshot describes another account, or this one in another currency; its balances " ++
        "are not comparable and were not compared."⟩]
  else
    let reason (name : String) := "The " ++ name ++ " differs, in " ++ held.currency ++ "."
    differs str .balance "cash" (reason "cash") held.cash account.cash ++
      differs str .balance "equity" (reason "equity") held.equity account.equity ++
      differs str .balance "buying_power" (reason "buying power") held.buyingPower
        account.buyingPower ++
      differs str .balance "margin" (reason "margin") held.margin account.margin ++
      differs str .balance "available_funds" (reason "available funds") held.availableFunds
        account.availableFunds

/-- `_mirror_high_water`: the newest instant stored on an order or a fill. -/
def highWater : Option Instant :=
  (m.orders.values.map (·.updatedAt) ++ m.executions.values.map (·.timestamp)).max?

variable (snapshot : VenueSnapshot) (evaluatedAt : Instant) (maxAgeSeconds : ℚ)

def freshness : SnapshotFreshness :=
  if evaluatedAt < snapshot.asOf then .fromTheFuture
  else if maxAgeSeconds < evaluatedAt - snapshot.asOf then .tooOld
  else if (highWater m).any (snapshot.asOf < ·) then .predatesMirror
  else .current

def snapshotDivergences : List SnapshotDivergence :=
  orderDivergences str m snapshot.orders ++
    snapshot.executions.elim [] (fun executions => executionDivergences str m executions
      ((reportedOnce (·.brokerOrderId) snapshot.orders).map (·.brokerOrderId))) ++
    snapshot.positions.elim [] (positionDivergences str m) ++
    snapshot.account.elim [] (accountDivergences str m)

def reconcileSnapshot : Except NegativeBudget SnapshotReconciliation := do
  require (0 ≤ maxAgeSeconds) ⟨maxAgeSeconds⟩
  let unexamined := (if snapshot.executions.isNone then ["executions"] else []) ++
    (if snapshot.positions.isNone then ["positions"] else []) ++
    if snapshot.account.isNone then ["account"] else []
  if freshness m snapshot evaluatedAt maxAgeSeconds ≠ .current then
    return { freshness := freshness m snapshot evaluatedAt maxAgeSeconds, unexamined := unexamined }
  return {
    freshness := .current
    divergences := sortBy (fun d => toLex (d.kind.ctorIdx, toLex (d.key, d.reason)))
      (snapshotDivergences str m snapshot)
    unexamined := unexamined
    comparedOrders := ((reportedOnce (·.brokerOrderId) snapshot.orders).filter fun o =>
      (m.orders.get? o.brokerOrderId).isSome).length
    comparedExecutions := snapshot.executions.elim 0 fun executions =>
      ((reportedOnce (·.executionId) executions).filter fun x =>
        (m.executions.get? x.executionId).isSome).length
    comparedPositions := snapshot.positions.elim 0 fun positions =>
      (comparedSymbols m positions).length }

end

/-! ## A comparison that shows nothing -/

def BrokerOrder.Matches (o r : BrokerOrder) : Prop :=
  o.quantity = r.quantity ∧ o.price = r.price ∧ o.filledQuantity = r.filledQuantity ∧
    statusesConsistent o.status r.status = true

def BrokerExecution.Matches (x r : BrokerExecution) : Prop :=
  x.fillQuantity = r.fillQuantity ∧ x.fillPrice = r.fillPrice ∧ x.commission = r.commission ∧
    x.brokerOrderId = r.brokerOrderId

/-- The mirror holds what the venue reports, and the venue reports what is working and the
    fills of what it reports. -/
structure Agrees (m : BrokerState) (orders : List BrokerOrder) (executions : List BrokerExecution)
    (positions : List BrokerPosition) (account : BrokerAccount) : Prop where
  working : ∀ o ∈ m.orders.values, o.isTerminal = false →
    o.brokerOrderId ∈ orders.map (·.brokerOrderId)
  held : ∀ r ∈ orders, ∃ o, m.orders.get? r.brokerOrderId = some o ∧ o.Matches r
  filled : ∀ r ∈ executions, ∃ x, m.executions.get? r.executionId = some x ∧ x.Matches r
  reported : ∀ x ∈ m.executions.values, x.brokerOrderId ∈ orders.map (·.brokerOrderId) →
    x.executionId ∈ executions.map (·.executionId)
  sizes : ∀ symbol, sizeHeld m symbol = sizeReported positions symbol
  identity : m.account.accountId = account.accountId ∧ m.account.currency = account.currency
  balances : m.account.cash = account.cash ∧ m.account.equity = account.equity ∧
    m.account.buyingPower = account.buyingPower ∧ m.account.margin = account.margin ∧
    m.account.availableFunds = account.availableFunds

theorem duplicated_eq_nil {keys : List String} (h : keys.Nodup) : duplicated keys = [] := by
  rw [duplicated, List.filter_eq_nil_iff]
  intro k _
  have hcount := List.nodup_iff_count_le_one.mp h k
  simpa using hcount

section
variable {α : Type} {key : α → String} {l : List α}

theorem reportedOnce_eq (h : Keyed key l) : reportedOnce key l = l := by
  simp [reportedOnce, duplicated_eq_nil h]

theorem duplicateEvidence_eq_nil (h : Keyed key l) (each every : String) :
    duplicateEvidence key l each every = [] := by
  rw [duplicateEvidence, duplicated_eq_nil h]
  rfl

theorem flatMap_sortBy_eq_nil {β : Type} {f : α → List β} :
    (sortBy key l).flatMap f = [] ↔ ∀ a ∈ l, f a = [] := by
  simp [List.flatMap_eq_nil_iff]

end

section
variable {str : Decimal → String} {m : BrokerState} {orders : List BrokerOrder}
  {executions : List BrokerExecution} {positions : List BrokerPosition} {account : BrokerAccount}

theorem differs_eq_nil {kind : SnapshotDivergenceKind} {key reason : String}
    {mine theirs : Decimal} : differs str kind key reason mine theirs = [] ↔ mine = theirs := by
  rw [differs]
  split_ifs with h <;> simp [h]

theorem orderFields_eq_nil {held reported : BrokerOrder} :
    orderFields str held reported = [] ↔ held.Matches reported := by
  simp only [orderFields, List.append_eq_nil_iff, differs_eq_nil, ite_eq_left_iff,
    BrokerOrder.Matches, and_assoc, reduceCtorEq, imp_false, not_not]

theorem executionFields_eq_nil {held reported : BrokerExecution} :
    executionFields str held reported = [] ↔ held.Matches reported := by
  simp only [executionFields, List.append_eq_nil_iff, differs_eq_nil, ite_eq_left_iff,
    BrokerExecution.Matches, and_assoc, reduceCtorEq, imp_false, not_not]

theorem orderDivergences_eq_nil (h : Keyed (·.brokerOrderId) orders) :
    orderDivergences str m orders = [] ↔
      (∀ o ∈ m.orders.values, o.isTerminal = false →
        o.brokerOrderId ∈ orders.map (·.brokerOrderId)) ∧
      ∀ r ∈ orders, ∃ o, m.orders.get? r.brokerOrderId = some o ∧ o.Matches r := by
  simp only [orderDivergences, List.append_eq_nil_iff, duplicateEvidence_eq_nil h, true_and,
    reportedOnce_eq h, duplicated_eq_nil h, flatMap_sortBy_eq_nil]
  refine and_congr (forall₂_congr fun o _ => ?_) (forall₂_congr fun r _ => ?_)
  · cases o.isTerminal <;> simp
  · cases m.orders.get? r.brokerOrderId with
    | none => simp
    | some o => simp [orderFields_eq_nil]

theorem executionDivergences_eq_nil (h : Keyed (·.executionId) executions)
    {reportedOrders : List String} :
    executionDivergences str m executions reportedOrders = [] ↔
      (∀ r ∈ executions, ∃ x, m.executions.get? r.executionId = some x ∧ x.Matches r) ∧
      ∀ x ∈ m.executions.values, x.brokerOrderId ∈ reportedOrders →
        x.executionId ∈ executions.map (·.executionId) := by
  simp only [executionDivergences, List.append_eq_nil_iff, duplicateEvidence_eq_nil h, true_and,
    reportedOnce_eq h, duplicated_eq_nil h, flatMap_sortBy_eq_nil]
  refine and_congr (forall₂_congr fun r _ => ?_) (forall₂_congr fun x _ => ?_)
  · cases m.executions.get? r.executionId with
    | none => simp
    | some x => simp [executionFields_eq_nil]
  · by_cases hx : x.brokerOrderId ∈ reportedOrders <;> simp [hx]

/-- A position neither side names is of nothing on both. -/
theorem positionDivergences_eq_nil (h : Keyed (·.symbol) positions) :
    positionDivergences str m positions = [] ↔
      ∀ symbol, sizeHeld m symbol = sizeReported positions symbol := by
  simp only [positionDivergences, List.append_eq_nil_iff, duplicateEvidence_eq_nil h, true_and,
    reportedOnce_eq h, flatMap_sortBy_eq_nil, differs_eq_nil, comparedSymbols,
    duplicated_eq_nil h]
  constructor
  · intro hall symbol
    by_cases hnamed : symbol ∈ m.positions.values.map (·.symbol) ++ positions.map (·.symbol)
    · exact hall symbol (by simpa using hnamed)
    · rw [List.mem_append, not_or] at hnamed
      have hheld : m.positions.get? symbol = none := by
        by_contra hsome
        obtain ⟨p, hp⟩ := Option.ne_none_iff_exists'.mp hsome
        have hkey := Register.key_of_get? hp
        exact hnamed.1 (List.mem_map.mpr ⟨p, Register.mem_values.mpr (hkey.symm ▸ hp), hkey⟩)
      have hreported : positions.find? (·.symbol = symbol) = none := by
        rw [List.find?_eq_none]
        intro p hp hsymbol
        exact hnamed.2 (List.mem_map.mpr ⟨p, hp, of_decide_eq_true hsymbol⟩)
      rw [sizeHeld, sizeReported, hheld, hreported]
  · intro hall symbol _
    exact hall symbol

theorem accountDivergences_eq_nil : accountDivergences str m account = [] ↔
    (m.account.accountId = account.accountId ∧ m.account.currency = account.currency) ∧
      m.account.cash = account.cash ∧ m.account.equity = account.equity ∧
      m.account.buyingPower = account.buyingPower ∧ m.account.margin = account.margin ∧
      m.account.availableFunds = account.availableFunds := by
  rw [accountDivergences]
  split_ifs with h
  · simp [not_and_or.mpr h]
  · rw [not_or, not_not, not_not] at h
    simp [differs_eq_nil, h]

variable {snapshot : VenueSnapshot}

/-- **What is compared shows no divergence iff the two agree.** -/
theorem snapshotDivergences_eq_nil (ho : Keyed (·.brokerOrderId) snapshot.orders)
    (he : snapshot.executions = some executions) (hek : Keyed (·.executionId) executions)
    (hp : snapshot.positions = some positions) (hpk : Keyed (·.symbol) positions)
    (ha : snapshot.account = some account) :
    snapshotDivergences str m snapshot = [] ↔
      Agrees m snapshot.orders executions positions account := by
  simp only [snapshotDivergences, List.append_eq_nil_iff, he, hp, ha, Option.elim_some,
    orderDivergences_eq_nil ho, executionDivergences_eq_nil hek, reportedOnce_eq ho,
    positionDivergences_eq_nil hpk, accountDivergences_eq_nil]
  constructor
  · rintro ⟨⟨⟨⟨hwork, horders⟩, hfills, hreported⟩, hpositions⟩, hidentity, hbalances⟩
    exact ⟨hwork, horders, hfills, hreported, hpositions, hidentity, hbalances⟩
  · rintro ⟨hwork, horders, hfills, hreported, hpositions, hidentity, hbalances⟩
    exact ⟨⟨⟨⟨hwork, horders⟩, hfills, hreported⟩, hpositions⟩, hidentity, hbalances⟩

end

/-! ## What the mirror has heard -/

/-- A session, and the instants of the calls that changed its mirror. -/
structure Heard where
  session : Session
  changed : List Instant := []

def MirrorCall.instant : MirrorCall → Instant
  | .submit _ submission | .record submission _ => submission.timestamp
  | .session (.event event) => event.timestamp
  | .session (.cancel r) => r.requestedAt
  | .session (.modify r) => r.requestedAt

def heardStep (t : Heard) (call : MirrorCall) : Except BrokerRefusal Heard := do
  let s ← mirrorStep t.session call
  pure ⟨s, if s.mirror = t.session.mirror then t.changed else t.changed ++ [call.instant]⟩

/-- An order of the mirror moved at `t` or later. -/
def Stamped (m : BrokerState) (t : Instant) : Prop :=
  ∃ h o, m.orders.get? h = some o ∧ t ≤ o.updatedAt

/-- The event may change the mirror and no order's instant: it is about a position, the balances
    or the connection, restates an order, or comes after the fill it reports. -/
def VenueEvent.Unstamped (e : VenueEvent) (m : BrokerState) : Prop :=
  match e.report with
  | .status _ _ => False
  | .fill _ x => x.timestamp < e.timestamp
  | .replaced h quantity price =>
    ∃ o, m.orders.get? h = some o ∧ quantity = o.quantity ∧ price = o.price
  | .position _ | .balances _ | .connected | .disconnected => True

/-- What changes the mirror beside its orders comes no later than they moved. -/
def MirrorCall.Stamps (m : BrokerState) : MirrorCall → Prop
  | .session (.event e) => e.Unstamped m → (applyVenueEvent m e).1 = m ∨ Stamped m e.timestamp
  | .submit _ _ | .record _ _ | .session (.cancel _) | .session (.modify _) => True

section
variable {m m' : BrokerState} {t : Instant} {h : String} {o w : BrokerOrder}

theorem Stamped.le_highWater (hs : Stamped m t) : (highWater m).any (t ≤ ·) = true := by
  obtain ⟨h, o, ho, hle⟩ := hs
  have hmem : o.updatedAt ∈ m.orders.values.map (·.updatedAt) ++
      m.executions.values.map (·.timestamp) := by
    refine List.mem_append_left _ (List.mem_map.mpr ⟨o, Register.mem_values.mpr ?_, rfl⟩)
    rw [Register.key_of_get? ho, ho]
  rw [highWater]
  cases hmax : (m.orders.values.map (·.updatedAt) ++
      m.executions.values.map (·.timestamp)).max? with
  | none =>
    rw [List.max?_eq_none_iff.mp hmax] at hmem
    cases hmem
  | some newest => exact decide_eq_true (hle.trans ((List.max?_eq_some_iff.mp hmax).2 _ hmem))

theorem Stamped.put (hs : Stamped m t) (ho : m.orders.get? h = some o)
    (hkey : w.brokerOrderId = o.brokerOrderId) (hle : o.updatedAt ≤ w.updatedAt)
    (hm : m'.orders = m.orders.put w) : Stamped m' t := by
  obtain ⟨k, v, hv, ht⟩ := hs
  obtain ⟨v', hv', hle'⟩ := Register.get?_put_step
    (fun a b : BrokerOrder => a.updatedAt ≤ b.updatedAt) hv ho hkey hle le_rfl
  exact ⟨k, v', hm ▸ hv', ht.trans hle'⟩

theorem stamped_put (hle : t ≤ w.updatedAt) (hm : m'.orders = m.orders.put w) : Stamped m' t :=
  ⟨_, w, hm ▸ Register.get?_put_self m.orders w, hle⟩

theorem Stamped.event (hs : Stamped m t) (event : VenueEvent) :
    Stamped (applyVenueEvent m event).1 t := by
  rcases applyVenueEvent_cases m event with ⟨hm, _⟩ | ⟨_, _, o, target, _, ho, _, hm⟩ |
    ⟨_, e, o, _, ho, _, hm⟩ | ⟨_, quantity, price, o, _, ho, _, _, hm, _⟩
  · rwa [Stamped, hm]
  · exact hs.put (w := o.movedTo target event.timestamp) ho rfl (le_max_left _ _)
      (by rw [hm, putOrder_orders])
  · exact hs.put (w := o.filledBy e) ho rfl (le_max_left _ _) (by rw [hm, fill_orders])
  · exact hs.put (w := o.amendedTo quantity price event.timestamp) ho rfl (le_max_left _ _) hm

/-- An amendment the order does not stand at amends it, or does nothing. -/
theorem replacedEvent_news {event : VenueEvent} {quantity price : Decimal}
    (hnews : ∀ o, m.orders.get? h = some o → ¬ (quantity = o.quantity ∧ price = o.price)) :
    (m.replacedEvent event h quantity price).1 = m ∨
      ∃ o : BrokerOrder, (m.replacedEvent event h quantity price).1.orders =
        m.orders.put (o.amendedTo quantity price event.timestamp) := by
  rw [BrokerState.replacedEvent]
  cases ho : m.orders.get? h with
  | none => exact Or.inl rfl
  | some o =>
    dsimp only
    by_cases hinvalid : quantity ≤ 0 ∨ price < 0
    · rw [if_pos hinvalid]
      exact Or.inl rfl
    · rw [if_neg hinvalid, absoluteReport, decide_eq_false (hnews o ho)]
      cases sequenceGate m event.sequence (.order h) false with
      | some outcome => exact Or.inl rfl
      | none =>
        dsimp only
        rw [if_neg Bool.false_ne_true]
        split_ifs
        · exact Or.inl rfl
        · exact Or.inl rfl
        · exact Or.inr ⟨o, by rw [numbered_orders, putOrder_orders]⟩

/-- **An event that changes the mirror stamps it**, where the mirror is not stamped already. -/
theorem event_stamps {event : VenueEvent} (hmeets : (MirrorCall.session (.event event)).Stamps m)
    (hchanged : (applyVenueEvent m event).1 ≠ m) :
    Stamped (applyVenueEvent m event).1 event.timestamp := by
  by_cases hun : event.Unstamped m
  · exact ((hmeets hun).resolve_left hchanged).event event
  · rw [VenueEvent.Unstamped] at hun
    rw [applyVenueEvent] at hchanged ⊢
    cases hr : event.report with
    | status kind h =>
      simp only [hr] at hchanged
      rcases statusEvent_cases m event kind h with ⟨hm, _⟩ | ⟨o, target, _, _, hm⟩
      · exact absurd hm hchanged
      · exact stamped_put (m := m) (w := o.movedTo target event.timestamp) (le_max_right _ _)
          (by rw [hm, putOrder_orders])
    | fill claimsComplete e =>
      simp only [hr] at hun hchanged
      rcases fillEvent_cases m event e with ⟨hm, _⟩ | ⟨o, _, _, hm⟩
      · exact absurd hm hchanged
      · exact stamped_put (m := m) (w := o.filledBy e) ((not_lt.mp hun).trans (le_max_right _ _))
          (by rw [hm, fill_orders])
    | replaced h quantity price =>
      simp only [hr] at hun hchanged
      rcases @replacedEvent_news m h event quantity price (fun o ho hq => hun ⟨o, ho, hq⟩)
        with hm | ⟨o, hm⟩
      · exact absurd hm hchanged
      · exact stamped_put (w := o.amendedTo quantity price event.timestamp) (le_max_right _ _) hm
    | position p => simp [hr] at hun
    | balances account => simp [hr] at hun
    | connected => simp [hr] at hun
    | disconnected => simp [hr] at hun

end

section
variable {s t : Session} {call : MirrorCall}

/-- A call takes no stamp back. -/
theorem Stamped.step {i : Instant} (hs : Stamped s.mirror i) (ht : mirrorStep s call = .ok t) :
    Stamped t.mirror i := by
  cases call with
  | submit venue submission =>
    obtain ⟨h, o, ho, hle⟩ := hs
    exact ⟨h, o, recorded_keeps (by simp) ht ho, hle⟩
  | record submission answer =>
    obtain ⟨h, o, ho, hle⟩ := hs
    exact ⟨h, o, recorded_keeps (by simp) ht ho, hle⟩
  | session call =>
    obtain rfl := ok_inj.mp ht
    cases call with
    | event event => exact hs.event event
    | cancel r =>
      by_cases hnew : (issueCancel s.mirror s.ledger r).2.2 = .new
      · obtain ⟨o, ho, _, _, hm⟩ := issueCancel_new hnew
        exact hs.put (w := o.cancelling r.requestedAt) ho rfl (le_max_left _ _)
          (by rw [Session.apply, hm, putOrder_orders])
      · rwa [Session.apply, issueCancel_other hnew]
    | modify r => rwa [Session.apply, issueModify_mirror]

theorem mirrorStep_stamps (hmeets : call.Stamps s.mirror) (ht : mirrorStep s call = .ok t)
    (hchanged : t.mirror ≠ s.mirror) : Stamped t.mirror call.instant := by
  cases call with
  | submit venue submission =>
    simp only [mirrorStep, bind_ok, pure_ok] at ht
    obtain ⟨m, hm, rfl⟩ := ht
    obtain ⟨_, _, ⟨_, rfl⟩ | ⟨price, commission, _, hput, _⟩⟩ := submitOrder_ok hm
    · exact stamped_put (m := s.mirror) (w := submission.toBrokerOrder.acceptedAt _) le_rfl rfl
    · exact ⟨_, _, hput ▸ Register.get?_put_self _ _, le_rfl⟩
  | record submission answer =>
    simp only [mirrorStep, recordSubmission, bind_ok, pure_ok] at ht
    obtain ⟨m, ⟨_, _, rfl⟩, rfl⟩ := ht
    exact stamped_put (m := s.mirror) (w := { submission.toBrokerOrder with
      status := answer.status }) le_rfl rfl
  | session call =>
    obtain rfl := ok_inj.mp ht
    cases call with
    | event event => exact event_stamps hmeets hchanged
    | cancel r =>
      by_cases hnew : (issueCancel s.mirror s.ledger r).2.2 = .new
      · obtain ⟨o, ho, _, _, hm⟩ := issueCancel_new hnew
        exact stamped_put (m := s.mirror) (w := o.cancelling r.requestedAt) (le_max_right _ _)
          (by rw [Session.apply, hm, putOrder_orders])
      · exact absurd (issueCancel_other hnew) hchanged
    | modify r => exact absurd (issueModify_mirror _ _ r) hchanged

end

/-- Every instant at which the mirror changed is stamped on an order. -/
theorem changed_stamped {s : Session} {t : Heard}
    (hrun : Runs heardStep (fun u call => call.Stamps u.session.mirror) ⟨s, []⟩ t) :
    ∀ i ∈ t.changed, Stamped t.session.mirror i := by
  refine hrun.invariant (fun u => ∀ i ∈ u.changed, Stamped u.session.mirror i) (by simp) ?_
  intro u call v hu hmeets hv
  obtain ⟨w, hw, hv⟩ := bind_ok.mp hv
  obtain rfl := pure_ok.mp hv
  intro i hi
  dsimp only at hi ⊢
  split_ifs at hi with hsame
  · exact (hu i hi).step hw
  · rcases List.mem_append.mp hi with hi | hi
    · exact (hu i hi).step hw
    · obtain rfl := List.mem_singleton.mp hi
      exact mirrorStep_stamps hmeets hw hsame

theorem reconcileSnapshot_ok (str : Decimal → String) (m : BrokerState) (snapshot : VenueSnapshot)
    (evaluatedAt : Instant) {maxAgeSeconds : ℚ} (hbudget : 0 ≤ maxAgeSeconds) :
    ∃ r, reconcileSnapshot str m snapshot evaluatedAt maxAgeSeconds = .ok r ∧
      r.freshness = freshness m snapshot evaluatedAt maxAgeSeconds ∧
      (r.freshness ≠ .current → r.divergences = []) ∧
      (r.freshness = .current →
        (r.divergences = [] ↔ snapshotDivergences str m snapshot = [])) := by
  rw [reconcileSnapshot, require, if_pos hbudget]
  by_cases hfresh : freshness m snapshot evaluatedAt maxAgeSeconds = .current
  · refine ⟨_, if_neg (not_not.mpr hfresh), hfresh.symm, fun h => absurd rfl h, fun _ => ?_⟩
    rw [← List.length_eq_zero_iff, length_sortBy, List.length_eq_zero_iff]
  · exact ⟨_, if_pos hfresh, rfl, fun _ => rfl, fun h => absurd h hfresh⟩

/-- **A snapshot the mirror has outgrown is never compared**, after any calls that stamp what they
    change, and a current one shows no divergence iff the mirror and the venue agree. -/
theorem outgrown_never_compared (str : Decimal → String) {s : Session} {t : Heard}
    (hrun : Runs heardStep (fun u call => call.Stamps u.session.mirror) ⟨s, []⟩ t)
    (snapshot : VenueSnapshot) (evaluatedAt : Instant) {maxAgeSeconds : ℚ}
    (hbudget : 0 ≤ maxAgeSeconds) :
    ∃ r, reconcileSnapshot str t.session.mirror snapshot evaluatedAt maxAgeSeconds = .ok r ∧
      ((∃ i ∈ t.changed, snapshot.asOf < i) → r.freshness ≠ .current ∧ r.divergences = []) ∧
      ∀ executions positions account, snapshot.executions = some executions →
        snapshot.positions = some positions → snapshot.account = some account →
        Keyed (·.brokerOrderId) snapshot.orders → Keyed (·.executionId) executions →
        Keyed (·.symbol) positions → r.freshness = .current →
        (r.divergences = [] ↔
          Agrees t.session.mirror snapshot.orders executions positions account) := by
  obtain ⟨r, hr, hfresh, hstale, hcurrent⟩ := reconcileSnapshot_ok str t.session.mirror snapshot
    evaluatedAt hbudget
  refine ⟨r, hr, ?_, ?_⟩
  · rintro ⟨i, hi, hlt⟩
    have hnewest := (changed_stamped hrun i hi).le_highWater
    have hne : r.freshness ≠ .current := by
      rw [hfresh, freshness]
      split_ifs with hfuture hold hpredates
      · decide
      · decide
      · decide
      · cases hmark : highWater t.session.mirror with
        | none => simp [hmark] at hnewest
        | some newest =>
          rw [hmark] at hnewest hpredates
          exact absurd (decide_eq_true (hlt.trans_le (of_decide_eq_true hnewest))) hpredates
    exact ⟨hne, hstale hne⟩
  · intro executions positions account he hp ha ho hek hpk hcur
    rw [hcurrent hcur]
    exact snapshotDivergences_eq_nil ho he hek hp hpk ha

/-! ## A position reported later -/

def positionReport : VenueEvent where
  report := .position {
    symbol := "AAPL"
    quantity := 3
    averagePrice := 5
    marketValue := 15
    unrealizedPnl := 0
    realizedPnl := 0 }
  timestamp := 10

def limitSent : BrokerOrder :=
  { limitSubmission.toBrokerOrder with status := SubmissionAnswer.sent.status }

/-- The venue at instant `i`: the order, unfilled, and no position. -/
def snapshotAt (i : Instant) : VenueSnapshot where
  asOf := i
  orders := [limitSent]
  executions := none
  positions := some []
  account := none

def wholeText (d : Decimal) : String := toString d.num

/-- **A snapshot from before a position was reported is compared**, and its past is reported as a
    break: no order carries the instant of the report. -/
theorem outgrown_compared :
    ∃ t, [.record limitSubmission .sent, .session (.event positionReport)].foldlM heardStep
        ⟨Session.opened unusedMirror {}, []⟩ = .ok t ∧
      10 ∈ t.changed ∧ (snapshotAt 5).asOf < 10 ∧
      ∃ r, reconcileSnapshot wholeText t.session.mirror (snapshotAt 5) 10 60 = .ok r ∧
        r.freshness = .current ∧ r.divergences.map (·.kind) = [.positionQuantity] := by
  obtain ⟨t, ht, hchanged, hcompared⟩ := exists_ok_of (x := [.record limitSubmission .sent,
    .session (.event positionReport)].foldlM heardStep ⟨Session.opened unusedMirror {}, []⟩)
    (fun t => 10 ∈ t.changed ∧
      (reconcileSnapshot wholeText t.session.mirror (snapshotAt 5) 10 60).toOption.any (fun r =>
        decide (r.freshness = .current ∧ r.divergences.map (·.kind) = [.positionQuantity])) = true)
    (by decide +kernel)
  exact ⟨t, ht, hchanged, by decide +kernel, exists_ok_of _ hcompared⟩

/-- The fill stamps its order: a snapshot from before it is not compared. -/
theorem outgrown_never_compared_filled :
    ∃ t, [.record limitSubmission .sent, .session (.event firstFill)].foldlM heardStep
        ⟨Session.opened unusedMirror {}, []⟩ = .ok t ∧
      ∃ r, reconcileSnapshot wholeText t.session.mirror (snapshotAt 1) 3 60 = .ok r ∧
        r.freshness ≠ .current ∧ r.divergences = [] := by
  obtain ⟨t, ht, hchanged⟩ := exists_ok_of (x := [.record limitSubmission .sent,
    .session (.event firstFill)].foldlM heardStep ⟨Session.opened unusedMirror {}, []⟩)
    (fun t => 2 ∈ t.changed) (by decide +kernel)
  have hrun : Runs heardStep (fun u call => call.Stamps u.session.mirror)
      ⟨Session.opened unusedMirror {}, []⟩ t := by
    refine Runs.of_foldlM ht ?_
    intro call hcall u
    rw [List.mem_cons, List.mem_singleton] at hcall
    rcases hcall with rfl | rfl
    · trivial
    · intro hun
      exact absurd hun (lt_irrefl _)
  obtain ⟨r, hr, hstale, _⟩ := outgrown_never_compared wholeText hrun (snapshotAt 1) 3
    (show (0 : ℚ) ≤ 60 by norm_num)
  exact ⟨t, ht, r, hr, hstale ⟨2, hchanged, by decide +kernel⟩⟩

end AlphaLab
