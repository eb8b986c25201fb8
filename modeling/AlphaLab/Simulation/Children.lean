/-
  A child of an execution algorithm, worked at a market event
  (`work_child` of `runtime/execution_pipeline.py`).

  * `workChild` gives a child its turn: it is priced as an order would be, decided by
    the policy, and its fill is its parent's;
  * `workChild_of_workOrder`: where the venue blocks neither, and an arriving limit
    child can be taken, a child's turn is the turn of an order in its parent's place.
-/
import AlphaLab.Simulation.LiquidityRuns

namespace AlphaLab

open Fallible

/-! ## A child's turn -/

/-- `ChildTurn`: what a child's turn comes to; its outcome, if it is finished. -/
structure ChildTurn where
  state : SimState
  report : Option ExecutionReport := none
  quantity : Decimal := 0
  outcome : Option OrderStatus := none

/-- A child as the policy and the cost model see it: its parent's identity, its own terms
    and quantity. -/
def Order.asChild (parent : Order) (child : ChildOrder) (working : Decimal) : Order :=
  { parent with
    orderType := child.orderType
    limitPrice := child.limitPrice
    timeInForce := .gtc
    quantity := parent.filledQuantity + working }

/-- What becomes of a child that did not trade: a market child is withdrawn, a limit child
    rests on. -/
def ChildOrder.unfilled (child : ChildOrder) : Option OrderStatus :=
  if child.orderType = .market then some .cancelled else none

namespace SimState

variable (s : SimState)

def childPrice (c : SimulationConfig) (x : EventContext) (view : Order) (market : Decimal)
    (arriving : Bool) : Except SimulationRefusal (Option Decimal × Bool) :=
  if view.orderType ≠ .limit then pure (some market, false)
  else if arriving then do
    let taken ← s.takerPrice c x view market
    if view.withinLimit taken then pure (some market, false)
    else pure (view.restingFillPrice x.event, true)
  else pure (view.restingFillPrice x.event, true)

def fillChild (c : SimulationConfig) (x : EventContext) (child : ChildOrder) (parent : Order)
    (working decided price : Decimal) (passive : Bool) : Except SimulationRefusal ChildTurn := do
  let quantity := min decided working
  -- a fill completes the parent only when it leaves nothing of it
  let status := if parent.remainingQuantity ≤ quantity then FillStatus.fullFill else .partialFill
  let executed ← s.executeOrder c x parent ⟨status, some quantity⟩ price passive
  let booked ← executed.1.onPipeline fun p =>
    executed.2.toList.foldlM (fun p report => p.applyReport c.pipeline x.rates parent report) p
  pure {
    state := booked
    report := executed.2
    quantity := quantity
    outcome := if quantity = working then some .filled else child.unfilled }

def workChildAt (c : SimulationConfig) (x : EventContext) (child : ChildOrder) (parent : Order)
    (working price : Decimal) (passive : Bool) : Except SimulationRefusal ChildTurn :=
  if s.venueBlocks x parent.assetId price then pure { state := s, outcome := child.unfilled }
  else
    let decision := decideFill x.policy (parent.asChild child working) x.event price c.wholeUnits
    match decision.status with
    | .rejected => pure { state := s, outcome := some .rejected }
    | .expired => pure { state := s, outcome := some .expired }
    | .noFill => pure { state := s, outcome := child.unfilled }
    | .fullFill | .partialFill =>
      s.fillChild c x child parent working (decision.quantity.getD working) price passive

def workChild (c : SimulationConfig) (x : EventContext) (child : ChildOrder) (working : Decimal)
    (arriving : Bool) : Except SimulationRefusal ChildTurn := do
  require (c.pipeline.routing = .algorithmic) (.notTheParents child.childId)
  let priced ← orRefuse x.event.marketPrice (.notTheParents child.childId)
  require (priced.1 = child.assetId) (.notTheParents child.childId)
  let parent ← orRefuse (s.pipeline.orders.get? child.parentOrderId) (.notTheParents child.childId)
  require (parent.isOpen ∧ parent.assetId = child.assetId ∧ parent.side = child.side)
    (.notTheParents child.childId)
  require (0 < working ∧ working ≤ parent.remainingQuantity) (.notTheParents child.childId)
  let met ← s.childPrice c x (parent.asChild child working) priced.2 arriving
  match met with
  | (none, _) => pure { state := s }
  | (some price, passive) => s.workChildAt c x child parent working price passive

/-- An order worked whole in a parent's place: the parent's, with a child's terms and good
    until cancelled. -/
def wholeOrder (parent : Order) (child : ChildOrder) : Order :=
  { parent with
    orderType := child.orderType
    limitPrice := child.limitPrice
    timeInForce := .gtc
    expireAt := none }

def withOrder (order : Order) : SimState := { s with pipeline := s.pipeline.putOrder order }

def traded : List ExecutionAttempt := s.attempts.filter (·.report.isSome)

end SimState

def Order.outcome (order : Order) : Option OrderStatus :=
  if order.isOpen then none else some order.status

/-- A child's turn and an order's come to the same fill, as maker or taker, and to the same
    outcome. -/
structure SameTurn (orderId : String) (turn : ChildTurn) (t : SimState) : Prop where
  executions : turn.state.pipeline.executions = t.pipeline.executions
  traded : turn.state.traded = t.traded
  outcome : ∃ order, t.pipeline.orders.get? orderId = some order ∧ turn.outcome = order.outcome

section
variable {c : SimulationConfig} {x : EventContext} {s t : SimState} {child : ChildOrder}
  {parent : Order}

variable {price : Decimal}

variable {policy : FillPolicy} {event : MarketEvent} {wholeUnits : Bool}

theorem decideFill_congr {order order' : Order}
    (h : order.liquidityContext event price = order'.liquidityContext event price) :
    decideFill policy order event price wholeUnits =
      decideFill policy order' event price wholeUnits := by
  rw [decideFill, decideFill, h]

theorem decideFill_child :
    decideFill policy (parent.asChild child parent.remainingQuantity) event price wholeUnits =
      decideFill policy (SimState.wholeOrder parent child) event price wholeUnits := by
  refine decideFill_congr ?_
  simp [Order.liquidityContext, Order.asChild, SimState.wholeOrder, Order.remainingQuantity]

variable {order : Order} {decision : FillDecision} {passive : Bool}

/-- What the simulator is asked, and what it answers. -/
theorem executeOrder_iff {executed : SimState × Option ExecutionReport} :
    s.executeOrder c x order decision price passive = .ok executed ↔
      (∃ base, s.priceOf order = .ok base) ∧
      ∃ report, c.simulateFill x.event order decision price passive s.attempts.length = .ok report ∧
        executed.2 = (if decision.status.isFill then some report else none) ∧
        executed.1 = s.attempted {
          timestamp := x.event.timestamp
          orderId := order.orderId
          quantity := decision.fills order
          price := price
          passive := passive
          report := executed.2 } := by
  simp only [SimState.executeOrder, bind_ok, pure_ok]
  constructor
  · rintro ⟨base, hbase, report, hreport, rfl⟩
    exact ⟨⟨base, hbase⟩, report, hreport, rfl, rfl⟩
  · rintro ⟨⟨base, hbase⟩, report, hreport, htraded, hstate⟩
    refine ⟨base, hbase, report, hreport, ?_⟩
    rw [← htraded, ← hstate]

/-- **An order that the venue answered without a fill** is closed, and nothing traded. -/
theorem executeAndBook_unfilled (hfill : decision.status.isFill = false)
    (h : s.executeAndBook c x order decision price passive = .ok t) :
    t.pipeline.executions = s.pipeline.executions ∧ t.traded = s.traded ∧
      ∃ order', t.pipeline.orders.get? order.orderId = some order' ∧
        order'.status = decision.status.ending.status := by
  simp only [SimState.executeAndBook, bind_ok, executeOrder_iff] at h
  obtain ⟨executed, ⟨-, report, -, htraded, hstate⟩, h⟩ := h
  rw [hfill, if_neg Bool.false_ne_true] at htraded
  rw [htraded] at h hstate
  dsimp only at h
  rw [hstate] at h
  obtain ⟨p, hp, rfl⟩ := onPipeline_ok.mp h
  obtain ⟨⟨o, -, -, hended⟩, -, -, -, hexecutions⟩ := PipelineState.ended_spec hp
  refine ⟨?_, ?_, _, hended, rfl⟩
  · rw [hexecutions]
    simp [SimState.attempted]
  · simp [SimState.traded, SimState.attempted]

variable {status target : OrderStatus} {filled : Decimal}

theorem filled_of_next (h : nextOrderStatus status .filled filled = some target) :
    target = .filled := by
  have hrow : ∀ s t, orderTransitions s .filled = some t → t = .filled := by decide
  rcases nextOrderStatus_eq_some h with ht | ⟨-, hevent, -⟩
  · exact hrow _ _ ht
  · cases hevent

variable {report : ExecutionReport}

variable {p q : PipelineState}

theorem reportToOms_parent (hparent : p.orders.get? parent.orderId = some parent)
    (hfill : report.status.isFill = true)
    (h : (p.putOrder (SimState.wholeOrder parent child)).reportToOms report parent.orderId = .ok q)
    :
    ∃ filled order', p.reportToOms report parent.orderId = .ok (p.putOrder filled) ∧
      q = (p.putOrder (SimState.wholeOrder parent child)).putOrder order' ∧
      order'.orderId = parent.orderId ∧
      (report.status = .fullFill ∧ report.fillQuantity = parent.remainingQuantity ∧
          order'.status = .filled ∨
        report.status = .partialFill ∧ report.fillQuantity < parent.remainingQuantity ∧
          nextOrderStatus parent.status .partiallyFilled parent.filledQuantity =
            some order'.status) := by
  have hplace : (p.putOrder (SimState.wholeOrder parent child)).orders.get? parent.orderId =
      some (SimState.wholeOrder parent child) := Register.get?_put_self _ _
  unfold PipelineState.reportToOms at h ⊢
  cases hstatus : report.status with
  | fullFill =>
    rw [hstatus] at h
    obtain ⟨o, o', ho, hmove, rfl⟩ := PipelineState.moveOrder_ok.mp h
    obtain rfl := Option.some.inj (hplace.symm.trans ho)
    obtain ⟨status, hnext, hpositive, hwhole, rfl⟩ := fill_ok.mp hmove
    refine ⟨_, _, PipelineState.moveOrder_ok.mpr ⟨parent, _, hparent,
      fill_ok.mpr ⟨status, hnext, hpositive, hwhole, rfl⟩, rfl⟩, rfl, rfl, Or.inl ⟨rfl, ?_, ?_⟩⟩
    · exact eq_sub_of_add_eq' hwhole
    · exact filled_of_next hnext
  | partialFill =>
    rw [hstatus] at h
    obtain ⟨o, o', ho, hmove, rfl⟩ := PipelineState.moveOrder_ok.mp h
    obtain rfl := Option.some.inj (hplace.symm.trans ho)
    obtain ⟨status, hnext, hpositive, hpart, rfl⟩ := partialFill_ok.mp hmove
    refine ⟨_, _, PipelineState.moveOrder_ok.mpr ⟨parent, _, hparent,
      partialFill_ok.mpr ⟨status, hnext, hpositive, hpart, rfl⟩, rfl⟩, rfl, rfl,
      Or.inr ⟨rfl, ?_, hnext⟩⟩
    exact lt_sub_iff_add_lt'.mpr hpart
  | noFill | rejected | expired => simp [hstatus, FillStatus.isFill] at hfill

/-- **A report booked on an order in its parent's place** can be booked on the parent. -/
theorem applyReport_parent {rates : FxRates} (hparent : p.orders.get? parent.orderId = some parent)
    (hfill : report.status.isFill = true) (h : (p.putOrder (SimState.wholeOrder parent
      child)).applyReport c.pipeline rates (SimState.wholeOrder parent child) report = .ok q) :
    ∃ r, p.applyReport c.pipeline rates parent report = .ok r ∧
      r.executions = p.executions ∧ q.executions = p.executions ∧
      ∃ order', q.orders.get? parent.orderId = some order' ∧
        (report.status = .fullFill ∧ report.fillQuantity = parent.remainingQuantity ∧
            order'.status = .filled ∨
          report.status = .partialFill ∧ report.fillQuantity < parent.remainingQuantity ∧
            nextOrderStatus parent.status .partiallyFilled parent.filledQuantity =
              some order'.status) := by
  obtain ⟨filled, booked, notional, recorded, hfilled, hbooked, hnotional, hrecorded, rfl⟩ :=
    PipelineState.applyReport_ok.mp h
  obtain ⟨filledParent, order', hparentFilled, rfl, hid, hmoved⟩ :=
    reportToOms_parent hparent hfill hfilled
  obtain ⟨portfolio, hportfolio, rfl⟩ : ∃ portfolio,
      (∀ u : PipelineState, u.portfolio = p.portfolio →
        u.reportToPortfolio c.pipeline report parent.side = .ok { u with portfolio := portfolio }) ∧
      booked = { (p.putOrder (SimState.wholeOrder parent child)).putOrder order' with
        portfolio := portfolio } := by
    simp only [PipelineState.reportToPortfolio, bind_ok, require_ok, orRefuse_ok, mapError_ok,
      pure_ok, exists_const] at hbooked
    obtain ⟨hcurrency, settlesAt, hsettles, portfolio, hportfolio, rfl⟩ := hbooked
    refine ⟨portfolio, ?_, rfl⟩
    intro u hu
    simp only [PipelineState.reportToPortfolio, bind_ok, require_ok, orRefuse_ok, mapError_ok,
      pure_ok, exists_const]
    exact ⟨hcurrency, settlesAt, hsettles, portfolio, by rw [hu]; exact hportfolio, rfl⟩
  refine ⟨_, PipelineState.applyReport_ok.mpr ⟨_, _, notional, recorded, hparentFilled,
    hportfolio _ rfl, hnotional, hrecorded, rfl⟩, ?_, ?_, order', ?_, hmoved⟩
  · rw [PipelineState.releaseIfTerminal_executions]
    rfl
  · rw [PipelineState.releaseIfTerminal_executions]
    rfl
  · rw [PipelineState.releaseIfTerminal_orders, ← hid]
    exact Register.get?_put_self _ _

variable {number : ℕ}

theorem simulateFill_ok
    (h : c.simulateFill x.event order decision price passive number = .ok report) :
    report.status = decision.status ∧ report.fillQuantity = decision.fills order := by
  simp only [SimulationConfig.simulateFill, bind_ok, orRefuse_ok, require_ok, pure_ok,
    exists_const] at h
  obtain ⟨priced, -, -, rfl⟩ := h
  exact ⟨rfl, rfl⟩

/-- A child is priced as the order in its parent's place. -/
theorem simulateFill_congr {status : FillStatus} {quantity : Decimal}
    (hstatus : status = decision.status)
    (hquantity : quantity = decision.fills (SimState.wholeOrder parent child)) :
    c.simulateFill x.event parent ⟨status, some quantity⟩ price passive number =
      c.simulateFill x.event (SimState.wholeOrder parent child) decision price passive number := by
  subst hstatus hquantity
  rfl

/-- **An order filled in its parent's place** is a child filled: one report, and what is
    left of the order is left of the child. -/
theorem fillChild_of_executeAndBook (hparent : s.pipeline.orders.get? parent.orderId = some parent)
    (hfill : decision.status.isFill = true) (h : (s.withOrder (SimState.wholeOrder parent
      child)).executeAndBook c x (SimState.wholeOrder parent child) decision price passive = .ok t)
    :
    ∃ turn, s.fillChild c x child parent parent.remainingQuantity
        (decision.quantity.getD parent.remainingQuantity) price passive = .ok turn ∧
      turn.state.pipeline.executions = t.pipeline.executions ∧ turn.state.traded = t.traded ∧
      ∃ order', t.pipeline.orders.get? parent.orderId = some order' ∧
        (order'.status = .filled ∧ turn.outcome = some .filled ∨
          nextOrderStatus parent.status .partiallyFilled parent.filledQuantity =
            some order'.status ∧ turn.outcome = child.unfilled) := by
  simp only [SimState.executeAndBook, bind_ok, executeOrder_iff] at h
  obtain ⟨executed, ⟨hbase, report, hreport, htraded, hstate⟩, h⟩ := h
  rw [if_pos hfill] at htraded
  rw [htraded] at h hstate
  dsimp only at h
  rw [hstate] at h
  obtain ⟨p, hp, rfl⟩ := onPipeline_ok.mp h
  obtain ⟨hstatus, hquantity⟩ := simulateFill_ok hreport
  obtain ⟨r, hr, hrExecutions, hpExecutions, order', horder', hmoved⟩ :=
    applyReport_parent (p := (s.attempted _).pipeline) hparent (hstatus ▸ hfill) hp
  rw [hstatus, hquantity] at hmoved
  -- what was decided is what the child is given of what it works
  have hdecided : decision.fills (SimState.wholeOrder parent child) =
    decision.quantity.getD parent.remainingQuantity := rfl
  rw [hdecided] at hmoved
  have hgiven : min (decision.quantity.getD parent.remainingQuantity) parent.remainingQuantity =
      decision.fills (SimState.wholeOrder parent child) := by
    rw [hdecided]
    rcases hmoved with ⟨-, hwhole, -⟩ | ⟨-, hless, -⟩
    · rw [hwhole, min_self]
    · rw [min_eq_left hless.le]
  have hcompletes : (if parent.remainingQuantity ≤ decision.fills (SimState.wholeOrder parent child)
      then FillStatus.fullFill else .partialFill) = decision.status := by
    rw [hdecided]
    rcases hmoved with ⟨hfull, hwhole, -⟩ | ⟨hpart, hless, -⟩
    · rw [hwhole, if_pos le_rfl, hfull]
    · rw [if_neg hless.not_ge, hpart]
  refine ⟨⟨{ s.attempted _ with pipeline := r }, some report,
    decision.fills (SimState.wholeOrder parent child),
    if decision.fills (SimState.wholeOrder parent child) = parent.remainingQuantity then
      some .filled else child.unfilled⟩, ?_, hrExecutions.trans hpExecutions.symm, rfl, order',
    horder', ?_⟩
  · unfold SimState.fillChild
    dsimp only
    rw [hgiven, hcompletes]
    simp only [bind_ok, executeOrder_iff]
    refine ⟨(s.attempted _, some report), ⟨hbase, report, ?_, (if_pos hfill).symm, rfl⟩, _,
      onPipeline_ok.mpr ⟨r, ?_, rfl⟩, rfl⟩
    · rw [← hreport]
      exact simulateFill_congr rfl rfl
    · simp only [Option.toList_some, List.foldlM_cons, List.foldlM_nil, bind_pure]
      exact hr
  · rcases hmoved with ⟨-, hwhole, hstatus⟩ | ⟨-, hless, hnext⟩
    · exact Or.inl ⟨hstatus, if_pos hwhole⟩
    · exact Or.inr ⟨hnext, if_neg hless.ne⟩

/-! ### Turns -/

theorem outcome_of_isTerminal (h : order.status.isTerminal = true) :
    order.outcome = some order.status := by
  simp [Order.outcome, Order.isOpen, h]

/-- What a partial fill left behind is withdrawn; nothing else is. -/
theorem withdrawn_cases {orderId : String} {timestamp : Instant}
    (ho : s.pipeline.orders.get? orderId = some order)
    (h : s.onPipeline (·.withdrawPartialRemainder orderId timestamp) = .ok t) :
    order.status ≠ .partiallyFilled ∧ t = s ∨
      order.status = .partiallyFilled ∧
        t.pipeline.executions = s.pipeline.executions ∧ t.traded = s.traded ∧
        ∃ order', t.pipeline.orders.get? orderId = some order' ∧ order'.status = .cancelled := by
  obtain ⟨p, hp, rfl⟩ := onPipeline_ok.mp h
  simp only [PipelineState.withdrawPartialRemainder, bind_ok, mapError_ok, OrderBook.find,
    orRefuse_ok] at hp
  obtain ⟨order₁, ho₁, hp⟩ := hp
  obtain rfl := Option.some.inj (ho.symm.trans ho₁)
  split_ifs at hp with hpart
  · obtain ⟨⟨o, -, -, hended⟩, -, -, -, hexecutions⟩ := PipelineState.ended_spec hp
    exact Or.inr ⟨hpart, hexecutions, rfl, _, hended, rfl⟩
  · obtain rfl := pure_ok.mp hp
    exact Or.inl ⟨hpart, rfl⟩

theorem partiallyFilled_of_next (hstatus : status = .accepted ∨ status = .partiallyFilled)
    (h : nextOrderStatus status .partiallyFilled filled = some target) :
    target = .partiallyFilled := by
  rcases nextOrderStatus_eq_some h with ht | ⟨-, hevent, -⟩
  · rcases hstatus with rfl | rfl
    · exact (Option.some.inj ht).symm
    · exact (Option.some.inj ht).symm
  · cases hevent

theorem workChildAt_unfilled (passive : Bool)
    (hblocked : s.venueBlocks x parent.assetId price = false) (hdecision : decideFill x.policy
      (SimState.wholeOrder parent child) x.event price c.wholeUnits = decision)
    (hfill : decision.status.isFill = false) :
    s.workChildAt c x child parent parent.remainingQuantity price passive =
      .ok { state := s, outcome := match decision.status with
        | .noFill => child.unfilled
        | .expired => some .expired
        | .rejected | .fullFill | .partialFill => some .rejected } := by
  unfold SimState.workChildAt
  rw [hblocked, if_neg Bool.false_ne_true]
  dsimp only
  rw [decideFill_child, hdecision]
  cases hstatus : decision.status with
  | noFill => rfl
  | rejected => rfl
  | expired => rfl
  | fullFill | partialFill => simp [hstatus, FillStatus.isFill] at hfill

theorem workChildAt_filled (hblocked : s.venueBlocks x parent.assetId price = false)
    (hdecision : decideFill x.policy (SimState.wholeOrder parent child) x.event price c.wholeUnits =
      decision) (hfill : decision.status.isFill = true) :
    s.workChildAt c x child parent parent.remainingQuantity price passive =
      s.fillChild c x child parent parent.remainingQuantity
        (decision.quantity.getD parent.remainingQuantity) price passive := by
  unfold SimState.workChildAt
  rw [hblocked, if_neg Bool.false_ne_true]
  dsimp only
  rw [decideFill_child, hdecision]
  cases hstatus : decision.status with
  | fullFill => rfl
  | partialFill => rfl
  | noFill | rejected | expired => simp [hstatus, FillStatus.isFill] at hfill

theorem kills_wholeOrder :
    kills (SimState.wholeOrder parent child) decision = false := rfl

/-- **A market child's turn** is a market order's in its parent's place. -/
theorem workChildAt_of_simulateFill (hmarket : child.orderType = .market)
    (hparent : s.pipeline.orders.get? parent.orderId = some parent)
    (hworking : parent.status = .accepted ∨ parent.status = .partiallyFilled)
    (hblocked : s.venueBlocks x parent.assetId price = false) (h : (s.withOrder (SimState.wholeOrder
      parent child)).simulateFill c x (SimState.wholeOrder parent child) price = .ok t) :
    ∃ turn, s.workChildAt c x child parent parent.remainingQuantity price false = .ok turn ∧
      SameTurn parent.orderId turn t := by
  have hunblocked : (s.withOrder (SimState.wholeOrder parent child)).venueBlocks x
    (SimState.wholeOrder parent child).assetId price = false := hblocked
  unfold SimState.simulateFill at h
  rw [hunblocked, if_neg Bool.false_ne_true] at h
  generalize hdecision : decideFill x.policy (SimState.wholeOrder parent child) x.event price
    c.wholeUnits = decision at h
  dsimp only at h
  rw [kills_wholeOrder, if_neg Bool.false_ne_true, bind_ok] at h
  obtain ⟨booked, hbooked, hwithdrawn⟩ := h
  have hunfilled : child.unfilled = some .cancelled := if_pos hmarket
  by_cases hfill : decision.status.isFill = true
  · obtain ⟨turn, hturn, hexecutions, htraded, order', horder', houtcome⟩ :=
      fillChild_of_executeAndBook hparent hfill hbooked
    refine ⟨turn, (workChildAt_filled hblocked hdecision hfill).trans hturn, ?_⟩
    rcases houtcome with ⟨hstatus, hfilled⟩ | ⟨hnext, hleft⟩
    · rcases withdrawn_cases horder' hwithdrawn with ⟨-, rfl⟩ | ⟨hpart, -⟩
      · refine ⟨hexecutions, htraded, order', horder', ?_⟩
        rw [hfilled, outcome_of_isTerminal (by rw [hstatus]; rfl), hstatus]
      · rw [hstatus] at hpart
        cases hpart
    · have hstatus := partiallyFilled_of_next hworking hnext
      rcases withdrawn_cases horder' hwithdrawn with
        ⟨hpart, -⟩ | ⟨-, hkept, hattempts, ended, hended, hcancelled⟩
      · exact absurd hstatus hpart
      · refine ⟨hexecutions.trans hkept.symm, htraded.trans hattempts.symm, ended, hended, ?_⟩
        rw [hleft, hunfilled, outcome_of_isTerminal (by rw [hcancelled]; rfl), hcancelled]
  · have hnone : decision.status.isFill = false := by simpa using hfill
    obtain ⟨hexecutions, htraded, order', horder', hstatus⟩ := executeAndBook_unfilled hnone hbooked
    refine ⟨_, workChildAt_unfilled false hblocked hdecision hnone, ?_⟩
    have hterminal : order'.status.isTerminal = true := by
      rw [hstatus]
      exact OrderEnding.status_isTerminal _
    rcases withdrawn_cases horder' hwithdrawn with ⟨-, rfl⟩ | ⟨hpart, -⟩
    · refine ⟨hexecutions.symm, htraded.symm, order', horder', ?_⟩
      rw [outcome_of_isTerminal hterminal, hstatus]
      cases decision.status <;> simp [hunfilled, FillStatus.ending, OrderEnding.status]
    · rw [hpart] at hterminal
      cases hterminal

theorem sameTurn_waiting (hworking : parent.status = .accepted ∨ parent.status = .partiallyFilled) :
    SameTurn parent.orderId { state := s } (s.withOrder (SimState.wholeOrder parent child)) := by
  refine ⟨rfl, rfl, SimState.wholeOrder parent child, Register.get?_put_self _ _, ?_⟩
  have hopen : (SimState.wholeOrder parent child).isOpen = true := by
    rcases hworking with hstatus | hstatus <;>
      simp [Order.isOpen, SimState.wholeOrder, hstatus, OrderStatus.isTerminal]
  simp [Order.outcome, hopen]

/-- **A limit child's turn** at a price is a limit order's in its parent's place. -/
theorem workChildAt_of_workResting (hlimit : child.orderType = .limit)
    (hparent : s.pipeline.orders.get? parent.orderId = some parent)
    (hworking : parent.status = .accepted ∨ parent.status = .partiallyFilled)
    (hblocked : s.venueBlocks x parent.assetId price = false) (h : (s.withOrder (SimState.wholeOrder
      parent child)).workResting c x x.policy (SimState.wholeOrder parent child) price passive false
      = .ok t) :
    ∃ turn, s.workChildAt c x child parent parent.remainingQuantity price passive = .ok turn ∧
      SameTurn parent.orderId turn t := by
  have hunblocked : (s.withOrder (SimState.wholeOrder parent child)).venueBlocks x
    (SimState.wholeOrder parent child).assetId price = false := hblocked
  have hunfilled : child.unfilled = none := by simp [ChildOrder.unfilled, hlimit]
  unfold SimState.workResting at h
  rw [hunblocked, if_neg Bool.false_ne_true] at h
  dsimp only [Option.elim_none] at h
  generalize hdecision : decideFill x.policy (SimState.wholeOrder parent child) x.event price
    c.wholeUnits = decision at h
  rw [kills_wholeOrder, if_neg Bool.false_ne_true] at h
  by_cases hfill : decision.status.isFill = true
  · have htrades : decision.status ≠ .noFill := by
      intro hnone
      rw [hnone] at hfill
      cases hfill
    rw [if_neg htrades, bind_ok] at h
    obtain ⟨booked, hbooked, h⟩ := h
    rw [if_neg Bool.false_ne_true] at h
    obtain rfl := pure_ok.mp h
    obtain ⟨turn, hturn, hexecutions, htraded, order', horder', houtcome⟩ :=
      fillChild_of_executeAndBook hparent hfill hbooked
    refine ⟨turn, (workChildAt_filled hblocked hdecision hfill).trans hturn, hexecutions, htraded,
      order', horder', ?_⟩
    rcases houtcome with ⟨hstatus, hfilled⟩ | ⟨hnext, hleft⟩
    · rw [hfilled, outcome_of_isTerminal (by rw [hstatus]; rfl), hstatus]
    · have hstatus := partiallyFilled_of_next hworking hnext
      rw [hleft, hunfilled]
      simp [Order.outcome, Order.isOpen, hstatus, OrderStatus.isTerminal]
  · have hnone : decision.status.isFill = false := by simpa using hfill
    have hchild := workChildAt_unfilled passive hblocked hdecision hnone
    by_cases hwaits : decision.status = .noFill
    · rw [if_pos hwaits] at h
      obtain rfl := pure_ok.mp h
      rw [hwaits] at hchild
      dsimp only at hchild
      rw [hunfilled] at hchild
      exact ⟨_, hchild, sameTurn_waiting hworking⟩
    · rw [if_neg hwaits, bind_ok] at h
      obtain ⟨booked, hbooked, h⟩ := h
      rw [if_neg Bool.false_ne_true] at h
      obtain rfl := pure_ok.mp h
      obtain ⟨hexecutions, htraded, order', horder', hstatus⟩ :=
        executeAndBook_unfilled hnone hbooked
      have hterminal : order'.status.isTerminal = true := by
        rw [hstatus]
        exact OrderEnding.status_isTerminal _
      refine ⟨_, hchild, hexecutions.symm, htraded.symm, order', horder', ?_⟩
      rw [outcome_of_isTerminal hterminal, hstatus]
      cases hdecided : decision.status <;>
        simp [hdecided, FillStatus.isFill, FillStatus.ending, OrderEnding.status] at hnone hwaits ⊢

/-- What a child may be asked to work: a market or limit child of a working parent, for all
    that the parent has left. -/
structure WorksParent (s : SimState) (x : EventContext) (market : Decimal) (child : ChildOrder)
    (parent : Order) : Prop where
  priced : x.event.marketPrice = some (child.assetId, market)
  found : s.pipeline.orders.get? child.parentOrderId = some parent
  working : parent.status = .accepted ∨ parent.status = .partiallyFilled
  asset : parent.assetId = child.assetId
  side : parent.side = child.side
  left : 0 < parent.remainingQuantity
  orderType : child.orderType = .market ∨ child.orderType = .limit

/-- Where the venue's controls block neither the market's price nor the one a resting child
    would trade at. -/
def SimState.Unblocked (s : SimState) (x : EventContext) (market : Decimal) (child : ChildOrder)
    (parent : Order) : Prop :=
  s.venueBlocks x parent.assetId market = false ∧
    ∀ price, (SimState.wholeOrder parent child).restingFillPrice x.event = some price →
      s.venueBlocks x parent.assetId price = false

/-- A limit child that arrives can be taken within its limit. -/
def SimState.Takeable (s : SimState) (c : SimulationConfig) (x : EventContext) (market : Decimal)
    (child : ChildOrder) (parent : Order) : Prop :=
  child.orderType = .limit → ∀ taken,
    (s.withOrder (SimState.wholeOrder parent child)).takerPrice c x
      (SimState.wholeOrder parent child) market = .ok taken →
    (SimState.wholeOrder parent child).withinLimit taken = true

variable {market : Decimal}

/-- What a child's checks and its price come to. -/
theorem workChild_eq {arriving passive : Bool} {met : Option Decimal}
    (hrouting : c.pipeline.routing = .algorithmic) (hworks : WorksParent s x market child parent)
    (hmet : s.childPrice c x (parent.asChild child parent.remainingQuantity) market arriving = .ok
      (met, passive)) :
    s.workChild c x child parent.remainingQuantity arriving =
      met.elim (.ok { state := s }) fun price =>
        s.workChildAt c x child parent parent.remainingQuantity price passive := by
  have hopen : parent.isOpen = true := by
    rcases hworks.working with hstatus | hstatus <;>
      simp [Order.isOpen, hstatus, OrderStatus.isTerminal]
  simp only [SimState.workChild, hrouting, hworks.priced, hworks.found, hopen, hworks.asset,
    hworks.side, hworks.left, require, orRefuse, bind, Except.bind, if_true, and_self, le_refl,
    hmet]
  cases met <;> rfl

theorem takerPrice_child :
    s.takerPrice c x (parent.asChild child parent.remainingQuantity) market =
      (s.withOrder (SimState.wholeOrder parent child)).takerPrice c x
        (SimState.wholeOrder parent child) market := by
  have hremaining : (parent.asChild child parent.remainingQuantity).remainingQuantity =
      (SimState.wholeOrder parent child).remainingQuantity := by
    simp [Order.asChild, SimState.wholeOrder, Order.remainingQuantity]
  unfold SimState.takerPrice
  rw [hremaining]
  rfl

variable {arriving : Bool}

/-- **A child is worked as the order in its parent's place**, where the venue blocks neither
    and an arriving limit child can be taken. -/
theorem workChild_of_workOrder (hrouting : c.pipeline.routing = .algorithmic)
    (hworks : WorksParent s x market child parent)
    (hmarked : s.pipeline.marketPrices.get? parent.assetId = some market)
    (hunblocked : s.Unblocked x market child parent)
    (htakeable : arriving = true → s.Takeable c x market child parent) (h : (s.withOrder
      (SimState.wholeOrder parent child)).workOrder c x (SimState.wholeOrder parent child) arriving
      = .ok t) :
    ∃ turn, s.workChild c x child parent.remainingQuantity arriving = .ok turn ∧
      SameTurn child.parentOrderId turn t := by
  have hid : parent.orderId = child.parentOrderId := Register.key_of_get? hworks.found
  have hparent : s.pipeline.orders.get? parent.orderId = some parent := hid ▸ hworks.found
  have hlimited : (parent.asChild child parent.remainingQuantity).orderType = child.orderType := rfl
  have hprice : (s.withOrder (SimState.wholeOrder parent child)).priceOf
      (SimState.wholeOrder parent child) = .ok market := by
    show orRefuse (s.pipeline.marketPrices.get? parent.assetId) _ = _
    rw [hmarked]
    rfl
  have hfree : (s.withOrder (SimState.wholeOrder parent child)).venueBlocks x
    (SimState.wholeOrder parent child).assetId market = false := hunblocked.1
  have hlives : ¬ (SimState.wholeOrder parent child).expireAt.any (· ≤ x.event.timestamp) = true :=
    Bool.false_ne_true
  have hcontinuous : ¬ (SimState.wholeOrder parent child).isAuction = true := Bool.false_ne_true
  rw [← hid]
  unfold SimState.workOrder at h
  rw [if_neg hlives, bind_ok] at h
  obtain ⟨marketPrice, hmarketPrice, h⟩ := h
  obtain rfl : market = marketPrice := ok_inj.mp (hprice.symm.trans hmarketPrice)
  rw [hfree, if_neg Bool.false_ne_true, if_neg hcontinuous] at h
  have htype : (SimState.wholeOrder parent child).orderType = child.orderType := rfl
  rw [htype] at h
  rcases hworks.orderType with hmarket | hlimit
  · rw [hmarket] at h
    have hmet : s.childPrice c x (parent.asChild child parent.remainingQuantity) market arriving =
        .ok (some market, false) := by
      unfold SimState.childPrice
      rw [hlimited, hmarket, if_pos (by decide)]
      rfl
    rw [workChild_eq hrouting hworks hmet]
    exact workChildAt_of_simulateFill hmarket hparent hworks.working hunblocked.1 h
  · rw [hlimit] at h
    dsimp only at h
    unfold SimState.workLimit at h
    have hresting : SimState.childPrice s c x (parent.asChild child parent.remainingQuantity) market
        false = .ok ((SimState.wholeOrder parent child).restingFillPrice x.event, true) := by
      unfold SimState.childPrice
      rw [hlimited, hlimit, if_neg (by decide), if_neg Bool.false_ne_true]
      rfl
    cases arriving with
    | true =>
      rw [if_pos rfl] at h
      simp only [SimState.workArriving, bind_ok] at h
      obtain ⟨taken, htaken, h⟩ := h
      have hwithin := htakeable rfl hlimit taken htaken
      rw [if_pos hwithin] at h
      have hmet : s.childPrice c x (parent.asChild child parent.remainingQuantity) market true =
          .ok (some market, false) := by
        unfold SimState.childPrice
        rw [hlimited, hlimit, if_neg (by decide), if_pos rfl, takerPrice_child, htaken]
        exact if_pos hwithin
      rw [workChild_eq hrouting hworks hmet]
      exact workChildAt_of_workResting hlimit hparent hworks.working hunblocked.1 h
    | false =>
      rw [if_neg Bool.false_ne_true] at h
      unfold SimState.workRested at h
      simp only [Option.any_none, Bool.false_eq_true, if_false, Option.bind_none] at h
      rw [workChild_eq hrouting hworks hresting]
      cases hreached : (SimState.wholeOrder parent child).restingFillPrice x.event with
      | none =>
        rw [hreached] at h
        obtain rfl := pure_ok.mp h
        exact ⟨_, rfl, sameTurn_waiting hworks.working⟩
      | some price =>
        rw [hreached] at h
        exact workChildAt_of_workResting hlimit hparent hworks.working (hunblocked.2 price hreached) h

end

/-- **A child is worked exactly as an order is**: at an event whose price is marked, a market
    or limit child gets the fill and the outcome of a good-until-cancelled order with its
    terms in its parent's place, arriving or resting, where the venue's controls block
    neither and an arriving limit child can be taken. -/
theorem child_worked_as_order (c : SimulationConfig) (x : EventContext) (s t : SimState)
    (child : ChildOrder) (parent : Order) (market : Decimal) (arriving : Bool)
    (hrouting : c.pipeline.routing = .algorithmic)
    (hworks : WorksParent (s.marked x.event) x market child parent)
    (hunblocked : (s.marked x.event).Unblocked x market child parent)
    (htakeable : arriving = true → (s.marked x.event).Takeable c x market child parent)
    (h : ((s.marked x.event).withOrder (SimState.wholeOrder parent child)).workOrder c x
      (SimState.wholeOrder parent child) arriving = .ok t) :
    ∃ turn, (s.marked x.event).workChild c x child parent.remainingQuantity arriving = .ok turn ∧
      SameTurn child.parentOrderId turn t := by
  refine workChild_of_workOrder hrouting hworks ?_ hunblocked htakeable h
  rw [hworks.asset, SimState.marked, hworks.priced]
  exact Dict.get?_set_self _ _ _

/-! ## Where a child is not worked as an order -/

def childSimulation : SimulationConfig :=
  { plainSimulation with pipeline := { dollarPipeline with routing := .algorithmic } }

def wholeChild (orderType : OrderType) (limitPrice : Option Decimal) : ChildOrder where
  childId := "O/1"
  parentOrderId := "O"
  sequence := 1
  assetId := "X"
  side := .buy
  quantity := 4
  orderType := orderType
  limitPrice := limitPrice
  releasedAt := 0
  expiresAt := none
  strategyId := "A"
  contributions := []
  algorithmId := ""

def placedPurchase : SimState :=
  ([.call (.allocate fourUnits), .arrive threeShown true].foldlM (simStep childSimulation)
    printedRun).toOption.getD printedRun

def haltedPrint : EventContext where
  event := printAt 0
  policy := immediateFill
  controls := some { halted := fun _ => true }

def dippedBar : EventContext where
  event := ⟨0, .bar { assetId := "X", unit := .minute, «open» := 10, high := 10, low := 8,
                      close := 10, volume := 100 }⟩
  policy := immediateFill

def arrivingTurns (x : EventContext) (child : ChildOrder) : Option (ChildTurn × SimState) := do
  let parent ← placedPurchase.pipeline.orders.get? child.parentOrderId
  let turn ← (placedPurchase.workChild childSimulation x child parent.remainingQuantity
    true).toOption
  let worked ← ((placedPurchase.withOrder (SimState.wholeOrder parent child)).workOrder
    childSimulation x (SimState.wholeOrder parent child) true).toOption
  pure (turn, worked)

/-- **A halt withdraws a market child and lets a market order wait**, and a limit child that
    cannot be taken fills from the range of the bar it arrives at, where an order rests. -/
theorem child_not_worked_as_order :
    (∃ turn t, arrivingTurns haltedPrint (wholeChild .market none) = some (turn, t) ∧
      ¬ SameTurn "O" turn t) ∧
    ∃ turn t, arrivingTurns dippedBar (wholeChild .limit (some 9)) = some (turn, t) ∧
      ¬ SameTurn "O" turn t := by
  constructor
  · obtain ⟨turns, hturns, hchild, horder⟩ := exists_some_of
      (o := arrivingTurns haltedPrint (wholeChild .market none))
      (fun turns => turns.1.outcome = some .cancelled ∧
        (turns.2.pipeline.orders.get? "O").all (·.outcome = none) = true) (by decide +kernel)
    refine ⟨turns.1, turns.2, hturns, ?_⟩
    intro hsame
    obtain ⟨order, horder', houtcome⟩ := hsame.outcome
    simp [horder', ← houtcome, hchild] at horder
  · obtain ⟨turns, hturns, hfilled, hrested⟩ := exists_some_of
      (o := arrivingTurns dippedBar (wholeChild .limit (some 9)))
      (fun turns => turns.1.state.pipeline.executions ≠ [] ∧ turns.2.pipeline.executions = [])
      (by decide +kernel)
    refine ⟨turns.1, turns.2, hturns, ?_⟩
    intro hsame
    exact hfilled (hsame.executions.trans hrested)

/-- A market child takes the print it arrives at, as the order in its parent's place. -/
theorem child_worked_as_order_print :
    ∃ parent turn, placedPurchase.pipeline.orders.get? "O" = some parent ∧
      (placedPurchase.marked (printAt 0)).workChild childSimulation
        { event := printAt 0, policy := immediateFill } (wholeChild .market none)
        parent.remainingQuantity true = .ok turn ∧ turn.outcome = some .filled := by
  obtain ⟨parent, hparent, hworking, hasset, hside, hleft, hturns⟩ := exists_some_of
    (o := placedPurchase.pipeline.orders.get? "O")
    (fun parent => parent.status = .accepted ∧ parent.assetId = "X" ∧ parent.side = .buy ∧
      0 < parent.remainingQuantity ∧
      (((placedPurchase.marked (printAt 0)).withOrder (SimState.wholeOrder parent
        (wholeChild .market none))).workOrder childSimulation
        { event := printAt 0, policy := immediateFill } (SimState.wholeOrder parent
        (wholeChild .market none)) true).toOption.any (fun t => decide
          ((t.pipeline.orders.get? "O").all (·.status = .filled) = true)) = true)
    (by decide +kernel)
  obtain ⟨t, ht, hstatus⟩ := exists_ok_of _ hturns
  have hworks : WorksParent (placedPurchase.marked (printAt 0))
      { event := printAt 0, policy := immediateFill } 10 (wholeChild .market none) parent :=
    ⟨rfl, hparent, Or.inl hworking, hasset, hside, hleft, Or.inl rfl⟩
  obtain ⟨turn, hturn, hsame⟩ := child_worked_as_order childSimulation
    { event := printAt 0, policy := immediateFill } placedPurchase t (wholeChild .market none) parent
    10 true rfl hworks ⟨rfl, fun _ _ => rfl⟩ (by rintro - ⟨⟩) ht
  obtain ⟨order, horder, houtcome⟩ := hsame.outcome
  refine ⟨parent, turn, hparent, hturn, ?_⟩
  have horder' : t.pipeline.orders.get? "O" = some order := horder
  have hfilled : order.status = .filled := by simpa [horder'] using hstatus
  rw [houtcome, Order.outcome, Order.isOpen, hfilled]
  rfl

end AlphaLab
