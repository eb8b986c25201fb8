/-
  Applying what a venue reported to the mirror (`broker/lifecycle.py`): one
  normalized event at a time, each with exactly one outcome.

  Status events are ordered by the order's own status, fills are additive, and
  the absolute reports (an amendment, a position, the balances) are ordered by
  the number the venue gives them (`sequenceGate`).

  * `applyVenueEvent` is the next mirror and the decision;
  * `applyVenueEvent_cases`: everything an event can do to the orders and the
    fills of the mirror.
-/
import AlphaLab.Broker.Mirror

namespace AlphaLab

/-! ## Events -/

/-- What a venue reports: the event's kind with exactly the payload it needs. -/
inductive VenueReport where
  | status (kind : StatusEventKind) (brokerOrderId : String)
  | fill (claimsComplete : Bool) (execution : BrokerExecution)
  | replaced (brokerOrderId : String) (quantity price : Decimal)
  | position (position : BrokerPosition)
  | balances (account : BrokerAccount)
  | connected
  | disconnected
deriving DecidableEq

/-- What a `VenueEvent` requires of itself: an order event names its order, and
    a connectivity event carries no number. -/
def VenueReport.wellFormed (report : VenueReport) (sequence : Option ℕ) : Bool :=
  match report with
  | status _ h | replaced h _ _ => h ≠ ""
  | fill _ e => e.brokerOrderId ≠ ""
  | position _ | balances _ => true
  | connected | disconnected => sequence.isNone

structure VenueEvent where
  report : VenueReport
  timestamp : Instant
  sequence : Option ℕ := none
  wellFormed : report.wellFormed sequence = true := by decide
deriving DecidableEq

/-- `LifecycleOutcome`: what a reported event turned out to be. -/
inductive LifecycleOutcome where
  | applied | duplicate | stale | conflict | unknownOrder | invalid
deriving DecidableEq

/-- `_EXECUTION_OUTCOMES` -/
def ExecutionOutcome.lifecycle : ExecutionOutcome → LifecycleOutcome
  | applied => .applied
  | duplicate => .duplicate
  | unknownOrder => .unknownOrder
  | terminalOrder | overfill => .conflict
  | invalid => .invalid

structure LifecycleDecision where
  event : VenueEvent
  outcome : LifecycleOutcome
  statusBefore : Option BrokerStatus := none
  statusAfter : Option BrokerStatus := none
  implied : List OrderEventKind := []
  execution : Option ExecutionDecision := none

/-- `_decision`: about an order it leaves in `after`, or as it was. -/
def decisionAbout (event : VenueEvent) (outcome : LifecycleOutcome) (order : Option BrokerOrder)
    (after : Option BrokerStatus := none) (implied : List OrderEventKind := [])
    (execution : Option ExecutionDecision := none) : LifecycleDecision where
  event := event
  outcome := outcome
  statusBefore := order.map (·.status)
  statusAfter := after.or (order.map (·.status))
  implied := implied
  execution := execution

/-- An order moved to `status` by a report of `timestamp`. -/
def BrokerOrder.movedTo (o : BrokerOrder) (status : OrderStatus) (timestamp : Instant) :
    BrokerOrder :=
  { o with status := .canonical status, updatedAt := max o.updatedAt timestamp }

def BrokerState.statusEvent (m : BrokerState) (event : VenueEvent) (kind : StatusEventKind) (h : String) :
    BrokerState × LifecycleDecision :=
  match m.orders.get? h with
  | none => (m, decisionAbout event .unknownOrder none)
  | some o =>
    let classified := classifyOrderEvent o.status.canonicalStatus kind o.filledQuantity
    match classified.1 with
    | .transition =>
      (m.putOrder (o.movedTo classified.2 event.timestamp),
        decisionAbout event .applied (some o) (some (.canonical classified.2)))
    | .duplicate => (m, decisionAbout event .duplicate (some o))
    | .stale => (m, decisionAbout event .stale (some o))
    | .conflict => (m, decisionAbout event .conflict (some o))

/-- `_UNACKNOWLEDGED`: before the venue has acknowledged an order. -/
def OrderStatus.unacknowledged : OrderStatus → Bool
  | new | pending => true
  | accepted | partiallyFilled | filled | cancelPending | cancelled | rejected | expired => false

/-- `_fill_event`: the quantities decide, whatever the event is named. -/
def BrokerState.fillEvent (m : BrokerState) (event : VenueEvent) (e : BrokerExecution) :
    BrokerState × LifecycleDecision :=
  let order := m.orders.get? e.brokerOrderId
  let verdict := ⟨classifyExecution m e, e⟩
  if verdict.outcome = .applied then
    let applied := (applyExecution m e).1
    -- a fill proves acceptance
    let implied := if order.any (·.status.canonicalStatus.unacknowledged) then
      [.status .accepted] else []
    (applied, decisionAbout event .applied order
      ((applied.orders.get? e.brokerOrderId).map (·.status)) implied (some verdict))
  else (m, decisionAbout event verdict.outcome.lifecycle order none [] (some verdict))

/-! ## Absolute reports -/

/-- `_sequence_gate`: what the venue's number alone decides about an absolute
    report, if anything. -/
def sequenceGate (m : BrokerState) (sequence : Option ℕ) (subject : Subject) (holdsIt : Bool) :
    Option LifecycleOutcome :=
  match sequence, m.venueSequences.get? subject with
  | none, none | some _, none => none
  -- a report with no number cannot be ordered against a numbered one
  | none, some _ => some .invalid
  | some n, some last =>
    if last < n then none
    else if n < last then some .stale
    else if holdsIt then some .duplicate
    else some .conflict

/-- What the number of a report lets through: a first number, a newer one, or
    none for a subject the venue has not numbered. -/
def BrokerState.Permits (m : BrokerState) (sequence : Option ℕ) (subject : Subject) : Prop :=
  match sequence with
  | none => m.venueSequences.get? subject = none
  | some n => ∀ last, m.venueSequences.get? subject = some last → last < n

/-- `_numbered`: the number recorded as the last applied about the subject. -/
def BrokerState.numbered (m : BrokerState) (sequence : Option ℕ) (subject : Subject) :
    BrokerState :=
  match sequence with
  | none => m
  | some n => { m with venueSequences := m.venueSequences.set subject n }

/-- `_restated`: a report of what the mirror already holds. -/
def restated (m : BrokerState) (event : VenueEvent) (subject : Subject)
    (order : Option BrokerOrder) : BrokerState × LifecycleDecision :=
  if event.sequence = none then (m, decisionAbout event .duplicate order)
  else (m.numbered event.sequence subject, decisionAbout event .applied order)

/-- An absolute report: gated by its number, restated if the mirror holds what it
    says, and `news` otherwise. -/
def absoluteReport (m : BrokerState) (event : VenueEvent) (subject : Subject) (holdsIt : Bool)
    (order : Option BrokerOrder) (news : BrokerState × LifecycleDecision) :
    BrokerState × LifecycleDecision :=
  match sequenceGate m event.sequence subject holdsIt with
  | some outcome => (m, decisionAbout event outcome order)
  | none => if holdsIt then restated m event subject order else news

/-- An order amended to `quantity` at `price`. -/
def BrokerOrder.amendedTo (o : BrokerOrder) (quantity price : Decimal) (timestamp : Instant) :
    BrokerOrder :=
  { o with quantity := quantity, price := price, updatedAt := max o.updatedAt timestamp }

/-- `_replaced` -/
def BrokerState.replacedEvent (m : BrokerState) (event : VenueEvent) (h : String) (quantity price : Decimal) :
    BrokerState × LifecycleDecision :=
  match m.orders.get? h with
  | none => (m, decisionAbout event .unknownOrder none)
  | some o =>
    if quantity ≤ 0 ∨ price < 0 then (m, decisionAbout event .invalid (some o))
    else
      absoluteReport m event (.order h) (quantity = o.quantity ∧ price = o.price) (some o)
        (if orderTransitions o.status.canonicalStatus .replaced = none then
          (m, decisionAbout event .conflict (some o))
        else if quantity ≤ o.filledQuantity then (m, decisionAbout event .conflict (some o))
        else ((m.putOrder (o.amendedTo quantity price event.timestamp)).numbered event.sequence
            (.order h), decisionAbout event .applied (some o)))

/-- `_account_event` for `POSITION_CHANGED`. -/
def BrokerState.positionEvent (m : BrokerState) (event : VenueEvent) (p : BrokerPosition) :
    BrokerState × LifecycleDecision :=
  if p.accountId ≠ "" ∧ p.accountId ≠ m.account.accountId then
    (m, decisionAbout event .invalid none)
  else
    absoluteReport m event (.position p.symbol) (m.positions.get? p.symbol = some p) none
      ({ m with positions := m.positions.put p }.numbered event.sequence (.position p.symbol),
        decisionAbout event .applied none)

/-- `_account_event` for `BALANCE_CHANGED`. -/
def BrokerState.balancesEvent (m : BrokerState) (event : VenueEvent) (account : BrokerAccount) :
    BrokerState × LifecycleDecision :=
  if account.accountId ≠ m.account.accountId then (m, decisionAbout event .invalid none)
  -- a currency is named, never converted by assignment
  else if account.currency ≠ m.account.currency then (m, decisionAbout event .invalid none)
  else
    absoluteReport m event .balances (account.same m.account) none
      ({ m with account := account }.numbered event.sequence .balances,
        decisionAbout event .applied none)

/-- `_connectivity_event`: a new connection numbers its reports afresh. -/
def BrokerState.connectivityEvent (m : BrokerState) (event : VenueEvent) (target : ConnectionStatus) :
    BrokerState × LifecycleDecision :=
  if m.connectionStatus = target then (m, decisionAbout event .duplicate none)
  else if target = .connected then
    ({ m with connectionStatus := target, venueSequences := Dict.empty },
      decisionAbout event .applied none)
  else ({ m with connectionStatus := target }, decisionAbout event .applied none)

def applyVenueEvent (m : BrokerState) (event : VenueEvent) : BrokerState × LifecycleDecision :=
  match event.report with
  | .status kind h => m.statusEvent event kind h
  | .fill _ e => m.fillEvent event e
  | .replaced h quantity price => m.replacedEvent event h quantity price
  | .position p => m.positionEvent event p
  | .balances account => m.balancesEvent event account
  | .connected => m.connectivityEvent event .connected
  | .disconnected => m.connectivityEvent event .disconnected

/-! ## The steps of an order -/

/-- One step of an order's status: a row of the table, a cancel asked for, a
    refused cancel, or a fill that proves acceptance. -/
def OrderStatus.stepsTo (s t : OrderStatus) : Bool :=
  t ∈ successors s || (s.unacknowledged && (t = .partiallyFilled || t = .filled))

/-- What may become of an order: nothing, or, while it is not terminal, the same
    status or one step of it. -/
def BrokerOrder.StepsTo (o o' : BrokerOrder) : Prop :=
  o' = o ∨ (o.isTerminal = false ∧ (o'.status = o.status ∨
    o.status.canonicalStatus.stepsTo o'.status.canonicalStatus = true))

theorem stepsTo_of_next {s t : OrderStatus} {event : OrderEventKind} {filled : Decimal}
    (h : nextOrderStatus s event filled = some t) : s.stepsTo t = true := by
  have hrow : ∀ s e t, orderTransitions s e = some t → OrderStatus.stepsTo s t = true := by decide
  have hrefused : OrderStatus.stepsTo .cancelPending .partiallyFilled = true ∧
      OrderStatus.stepsTo .cancelPending .accepted = true := by decide
  rcases nextOrderStatus_eq_some h with ht | ⟨rfl, _, rfl⟩
  · exact hrow s event t ht
  · rw [workingStatusFor]
    split_ifs
    · exact hrefused.1
    · exact hrefused.2

theorem working_of_next {o : BrokerOrder} {event : OrderEventKind} {target : OrderStatus}
    (h : nextOrderStatus o.status.canonicalStatus event o.filledQuantity = some target) :
    o.isTerminal = false := by
  by_contra hterm
  rw [isTerminal_eq, Bool.not_eq_false] at hterm
  rw [nextOrderStatus_terminal hterm] at h
  cases h

theorem working_of_amendable {o : BrokerOrder}
    (h : orderTransitions o.status.canonicalStatus .replaced ≠ none) : o.isTerminal = false := by
  have hnone : ∀ s : OrderStatus, s.isTerminal = true → orderTransitions s .replaced = none := by
    decide
  by_contra hterm
  rw [isTerminal_eq, Bool.not_eq_false] at hterm
  exact h (hnone _ hterm)

theorem filledBy_stepsTo {o : BrokerOrder} (e : BrokerExecution) (h : o.isTerminal = false) :
    o.StepsTo (o.filledBy e) := by
  have hrow : ∀ s : OrderStatus, s.isTerminal = false →
      s.stepsTo .filled = true ∧ (s ≠ .cancelPending → s.stepsTo .partiallyFilled = true) := by
    decide
  rw [isTerminal_eq] at h
  obtain ⟨hfilled, hpart⟩ := hrow _ h
  rw [BrokerOrder.StepsTo, isTerminal_eq]
  refine Or.inr ⟨h, ?_⟩
  rw [BrokerOrder.filledBy, statusAfterFill]
  dsimp only
  split_ifs with hall hpending
  · exact Or.inr hfilled
  · exact Or.inl rfl
  · exact Or.inr (hpart hpending)

theorem BrokerOrder.StepsTo.terminal {o o' : BrokerOrder} (h : o.StepsTo o')
    (hterm : o.isTerminal = true) : o' = o := by
  rcases h with h | ⟨h, _⟩
  · exact h
  · rw [hterm] at h
    cases h

/-! ## What an event can do -/

section
variable (m : BrokerState) (sequence : Option ℕ) (subject : Subject)

@[simp] theorem numbered_orders : (m.numbered sequence subject).orders = m.orders := by
  cases sequence <;> rfl
@[simp] theorem numbered_executions : (m.numbered sequence subject).executions = m.executions := by
  cases sequence <;> rfl
@[simp] theorem numbered_account : (m.numbered sequence subject).account = m.account := by
  cases sequence <;> rfl
@[simp] theorem numbered_positions : (m.numbered sequence subject).positions = m.positions := by
  cases sequence <;> rfl

end

@[simp] theorem decisionAbout_outcome (event : VenueEvent) (outcome : LifecycleOutcome)
    (order : Option BrokerOrder) (after : Option BrokerStatus) (implied : List OrderEventKind)
    (execution : Option ExecutionDecision) :
    (decisionAbout event outcome order after implied execution).outcome = outcome := rfl

theorem sequenceGate_ne_applied {m : BrokerState} {sequence : Option ℕ} {subject : Subject}
    {holdsIt : Bool} : sequenceGate m sequence subject holdsIt ≠ some .applied := by
  unfold sequenceGate
  split
  · simp
  · simp
  · simp
  · split_ifs <;> simp

theorem sequenceGate_eq_none {m : BrokerState} {sequence : Option ℕ} {subject : Subject}
    (holdsIt : Bool) : sequenceGate m sequence subject holdsIt = none ↔
      m.Permits sequence subject := by
  unfold sequenceGate BrokerState.Permits
  cases sequence with
  | none => cases m.venueSequences.get? subject <;> simp
  | some n =>
    cases m.venueSequences.get? subject with
    | none => simp
    | some last =>
      dsimp only
      split_ifs with hnew hold hholds <;> simp [hnew]

theorem absoluteReport_cases (m : BrokerState) (event : VenueEvent) (subject : Subject)
    (holdsIt : Bool) (order : Option BrokerOrder) (news : BrokerState × LifecycleDecision) :
    ((absoluteReport m event subject holdsIt order news).1 = m ∧
        (absoluteReport m event subject holdsIt order news).2.outcome ≠ .applied) ∨
      ((absoluteReport m event subject holdsIt order news).1 =
          m.numbered event.sequence subject ∧ m.Permits event.sequence subject) ∨
      (absoluteReport m event subject holdsIt order news = news ∧
        m.Permits event.sequence subject ∧ holdsIt = false) := by
  rw [absoluteReport]
  cases hgate : sequenceGate m event.sequence subject holdsIt with
  | some outcome =>
    refine Or.inl ⟨rfl, ?_⟩
    rintro rfl
    exact sequenceGate_ne_applied hgate
  | none =>
    have hpermits := (sequenceGate_eq_none _).mp hgate
    dsimp only
    by_cases hholds : holdsIt = true
    · rw [if_pos hholds, restated]
      split_ifs with hseq
      · exact Or.inl ⟨rfl, by simp⟩
      · exact Or.inr (Or.inl ⟨rfl, hpermits⟩)
    · rw [if_neg hholds]
      exact Or.inr (Or.inr ⟨rfl, hpermits, by simpa using hholds⟩)

/-- Everything an event can do to the orders and the fills of a mirror: leave
    them, move an order's status, fill an order, or amend one. -/
inductive OrdersMoved (m : BrokerState) (event : VenueEvent) (m' : BrokerState) : Prop where
  | unmoved : m'.orders = m.orders → m'.executions = m.executions → OrdersMoved m event m'
  | moved (kind : StatusEventKind) (h : String) (o : BrokerOrder) (target : OrderStatus) :
      event.report = .status kind h → m.orders.get? h = some o →
      nextOrderStatus o.status.canonicalStatus (.status kind) o.filledQuantity = some target →
      m' = m.putOrder (o.movedTo target event.timestamp) → OrdersMoved m event m'
  | filled (claimsComplete : Bool) (e : BrokerExecution) (o : BrokerOrder) :
      event.report = .fill claimsComplete e → m.orders.get? e.brokerOrderId = some o →
      classifyExecution m e = .applied → m' = m.fill o e → OrdersMoved m event m'
  | amended (h : String) (quantity price : Decimal) (o : BrokerOrder) :
      event.report = .replaced h quantity price → m.orders.get? h = some o →
      orderTransitions o.status.canonicalStatus .replaced ≠ none → o.filledQuantity < quantity →
      m'.orders = m.orders.put (o.amendedTo quantity price event.timestamp) →
      m'.executions = m.executions → OrdersMoved m event m'

/-- A status event moves its order, or nothing. -/
theorem statusEvent_cases (m : BrokerState) (event : VenueEvent) (kind : StatusEventKind)
    (h : String) :
    ((m.statusEvent event kind h).1 = m ∧ (m.statusEvent event kind h).2.outcome ≠ .applied) ∨
      ∃ o target, m.orders.get? h = some o ∧
        nextOrderStatus o.status.canonicalStatus (.status kind) o.filledQuantity = some target ∧
        (m.statusEvent event kind h).1 = m.putOrder (o.movedTo target event.timestamp) := by
  rw [BrokerState.statusEvent]
  cases ho : m.orders.get? h with
  | none => exact Or.inl ⟨rfl, by simp⟩
  | some o =>
    dsimp only
    cases hc : classifyOrderEvent o.status.canonicalStatus kind o.filledQuantity with
    | mk classification target =>
      cases classification with
      | transition =>
        exact Or.inr ⟨o, target, rfl, classifyOrderEvent_transition.mp hc, rfl⟩
      | duplicate => exact Or.inl ⟨rfl, by simp⟩
      | stale => exact Or.inl ⟨rfl, by simp⟩
      | conflict => exact Or.inl ⟨rfl, by simp⟩

/-- A reported fill fills its order, or nothing. -/
theorem fillEvent_cases (m : BrokerState) (event : VenueEvent) (e : BrokerExecution) :
    ((m.fillEvent event e).1 = m ∧ (m.fillEvent event e).2.outcome ≠ .applied ∧
        classifyExecution m e ≠ .applied) ∨
      ∃ o, m.orders.get? e.brokerOrderId = some o ∧ classifyExecution m e = .applied ∧
        (m.fillEvent event e).1 = m.fill o e := by
  rw [BrokerState.fillEvent]
  by_cases h : classifyExecution m e = .applied
  · obtain ⟨o, ho, _, _, _, _, hm⟩ := afterExecution_applied h
    refine Or.inr ⟨o, ho, h, ?_⟩
    simp only [h, applyExecution, if_true, hm]
  · left
    have hne : ∀ outcome : ExecutionOutcome, outcome ≠ .applied → outcome.lifecycle ≠ .applied := by
      rintro (_ | _) <;> decide
    simp only [h, if_false]
    exact ⟨trivial, hne _ h, h⟩

/-- An amendment amends its order, is recorded, or does nothing. -/
theorem replacedEvent_cases (m : BrokerState) (event : VenueEvent) (h : String)
    (quantity price : Decimal) :
    ((m.replacedEvent event h quantity price).1 = m ∧
        (m.replacedEvent event h quantity price).2.outcome ≠ .applied) ∨
      ((m.replacedEvent event h quantity price).1 = m.numbered event.sequence (.order h) ∧
        m.Permits event.sequence (.order h)) ∨
      ∃ o, m.Permits event.sequence (.order h) ∧ m.orders.get? h = some o ∧ orderTransitions o.status.canonicalStatus .replaced ≠ none ∧
        o.filledQuantity < quantity ∧
        (m.replacedEvent event h quantity price).1 =
          (m.putOrder (o.amendedTo quantity price event.timestamp)).numbered event.sequence
            (.order h) := by
  rw [BrokerState.replacedEvent]
  cases ho : m.orders.get? h with
  | none => exact Or.inl ⟨rfl, by simp⟩
  | some o =>
    dsimp only
    by_cases hinvalid : quantity ≤ 0 ∨ price < 0
    · rw [if_pos hinvalid]
      exact Or.inl ⟨rfl, by simp⟩
    · rw [if_neg hinvalid]
      rcases absoluteReport_cases m event (.order h) (quantity = o.quantity ∧ price = o.price)
        (some o) _ with hr | ⟨hr, hp⟩ | ⟨hr, hp, _⟩
      · exact Or.inl hr
      · exact Or.inr (Or.inl ⟨hr, hp⟩)
      · rw [hr]
        split_ifs with hrow hfilled
        · exact Or.inl ⟨rfl, by simp⟩
        · exact Or.inl ⟨rfl, by simp⟩
        · exact Or.inr (Or.inr ⟨o, hp, rfl, hrow, not_le.mp hfilled, rfl⟩)

/-- A position report is refused, recorded, or news. -/
theorem positionEvent_cases (m : BrokerState) (event : VenueEvent) (p : BrokerPosition) :
    ((m.positionEvent event p).1 = m ∧ (m.positionEvent event p).2.outcome ≠ .applied) ∨
      ((m.positionEvent event p).1 = m.numbered event.sequence (.position p.symbol) ∧
        m.Permits event.sequence (.position p.symbol)) ∨
      ((m.positionEvent event p).1 = { m with positions := m.positions.put p }.numbered
        event.sequence (.position p.symbol) ∧ m.Permits event.sequence (.position p.symbol)) := by
  rw [BrokerState.positionEvent]
  split_ifs with haccount
  · exact Or.inl ⟨rfl, by simp⟩
  · rcases absoluteReport_cases m event (.position p.symbol)
      (m.positions.get? p.symbol = some p) none _ with hr | ⟨hr, hp⟩ | ⟨hr, hp, _⟩
    · exact Or.inl hr
    · exact Or.inr (Or.inl ⟨hr, hp⟩)
    · rw [hr]
      exact Or.inr (Or.inr ⟨rfl, hp⟩)

/-- A report of the balances is refused, recorded, or news. -/
theorem balancesEvent_cases (m : BrokerState) (event : VenueEvent) (account : BrokerAccount) :
    ((m.balancesEvent event account).1 = m ∧
        (m.balancesEvent event account).2.outcome ≠ .applied) ∨
      ((m.balancesEvent event account).1 = m.numbered event.sequence .balances ∧
        m.Permits event.sequence .balances) ∨
      ((m.balancesEvent event account).1 =
          { m with account := account }.numbered event.sequence .balances ∧
        m.Permits event.sequence .balances ∧ account.accountId = m.account.accountId ∧
        account.currency = m.account.currency) := by
  rw [BrokerState.balancesEvent]
  split_ifs with haccount hcurrency
  · exact Or.inl ⟨rfl, by simp⟩
  · exact Or.inl ⟨rfl, by simp⟩
  · rcases absoluteReport_cases m event .balances (account.same m.account) none _
      with hr | ⟨hr, hp⟩ | ⟨hr, hp, _⟩
    · exact Or.inl hr
    · exact Or.inr (Or.inl ⟨hr, hp⟩)
    · rw [hr]
      exact Or.inr (Or.inr ⟨rfl, hp, not_not.mp haccount, not_not.mp hcurrency⟩)

theorem connectivityEvent_unmoved (m : BrokerState) (event : VenueEvent)
    (target : ConnectionStatus) :
    (m.connectivityEvent event target).1.orders = m.orders ∧
      (m.connectivityEvent event target).1.executions = m.executions := by
  rw [BrokerState.connectivityEvent]
  split_ifs <;> exact ⟨rfl, rfl⟩

/-- **Everything an event can do to the orders and the fills.** -/
theorem applyVenueEvent_cases (m : BrokerState) (event : VenueEvent) :
    OrdersMoved m event (applyVenueEvent m event).1 := by
  rw [applyVenueEvent]
  cases hr : event.report with
  | status kind h =>
    rcases statusEvent_cases m event kind h with ⟨hm, _⟩ | ⟨o, target, ho, ht, hm⟩
    · exact .unmoved (by rw [hm]) (by rw [hm])
    · exact .moved kind h o target hr ho ht hm
  | fill claimsComplete e =>
    rcases fillEvent_cases m event e with ⟨hm, _⟩ | ⟨o, ho, hc, hm⟩
    · exact .unmoved (by rw [hm]) (by rw [hm])
    · exact .filled claimsComplete e o hr ho hc hm
  | replaced h quantity price =>
    rcases replacedEvent_cases m event h quantity price
      with ⟨hm, _⟩ | ⟨hm, _⟩ | ⟨o, _, ho, hrow, hfilled, hm⟩
    · exact .unmoved (by rw [hm]) (by rw [hm])
    · exact .unmoved (by rw [hm, numbered_orders]) (by rw [hm, numbered_executions])
    · exact .amended h quantity price o hr ho hrow hfilled (by rw [hm, numbered_orders]; rfl)
        (by rw [hm, numbered_executions]; rfl)
  | position p =>
    rcases positionEvent_cases m event p with ⟨hm, _⟩ | ⟨hm, _⟩ | ⟨hm, _⟩
    · exact .unmoved (by rw [hm]) (by rw [hm])
    · exact .unmoved (by rw [hm, numbered_orders]) (by rw [hm, numbered_executions])
    · exact .unmoved (by rw [hm, numbered_orders]) (by rw [hm, numbered_executions])
  | balances account =>
    rcases balancesEvent_cases m event account with ⟨hm, _⟩ | ⟨hm, _⟩ | ⟨hm, _⟩
    · exact .unmoved (by rw [hm]) (by rw [hm])
    · exact .unmoved (by rw [hm, numbered_orders]) (by rw [hm, numbered_executions])
    · exact .unmoved (by rw [hm, numbered_orders]) (by rw [hm, numbered_executions])
  | connected =>
    obtain ⟨ho, he⟩ := connectivityEvent_unmoved m event .connected
    exact .unmoved ho he
  | disconnected =>
    obtain ⟨ho, he⟩ := connectivityEvent_unmoved m event .disconnected
    exact .unmoved ho he

/-- **An event takes every order one step, or leaves it.** -/
theorem applyVenueEvent_stepsTo {m : BrokerState} {h : String} {o : BrokerOrder}
    (ho : m.orders.get? h = some o) (event : VenueEvent) :
    ∃ o', (applyVenueEvent m event).1.orders.get? h = some o' ∧ o.StepsTo o' := by
  rcases applyVenueEvent_cases m event with ⟨hm, _⟩ | ⟨kind, h', o₁, target, _, ho₁, ht, hm⟩ |
    ⟨_, e, o₁, _, ho₁, hc, hm⟩ | ⟨h', quantity, price, o₁, _, ho₁, hrow, _, hm, _⟩
  · exact ⟨o, by rw [hm, ho], Or.inl rfl⟩
  · rw [hm, putOrder_orders]
    exact Register.get?_put_step BrokerOrder.StepsTo ho ho₁ rfl
      (Or.inr ⟨working_of_next ht, Or.inr (stepsTo_of_next ht)⟩) (Or.inl rfl)
  · obtain ⟨o₂, ho₂, hterm, _⟩ := afterExecution_applied hc
    rw [ho₁] at ho₂
    obtain rfl := Option.some.inj ho₂
    rw [hm, fill_orders]
    exact Register.get?_put_step BrokerOrder.StepsTo ho ho₁ rfl (filledBy_stepsTo e hterm)
      (Or.inl rfl)
  · rw [hm]
    exact Register.get?_put_step BrokerOrder.StepsTo ho ho₁ rfl
      (Or.inr ⟨working_of_amendable hrow, Or.inl rfl⟩) (Or.inl rfl)

end AlphaLab
