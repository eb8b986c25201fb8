/-
  A limit is a limit, over simulated runs.

  * `Order.Honours`: a price is within the limit an order carries;
  * `WithinLimits`: every execution of a run is within its order's limit; each turn and each
    call keeps it (`workOrder_limits`, `simStep_limits`), and so does a child of an algorithm
    (`workChild_honours`);
  * `limits_are_limits`, and `long_limit_exceeded`: a limit of more digits than prices carry.
-/
import AlphaLab.Simulation.Children

namespace AlphaLab

open Fallible

namespace Order

/-- A price is within the limit an order carries, if it carries one that prices carry. -/
def Honours (o : Order) (price : Decimal) : Prop :=
  ∀ limit ∈ o.limitPrice, Exact limit → o.side.within limit price = true

/-- What `OrderTerms` sees to: a limit is a limit order's, or that of a stop-limit, and an
    auction takes no stop-limit. -/
def LimitTermed (o : Order) : Prop :=
  o.limitPrice.isSome → o.orderType = .limit ∨ o.orderType = .stopLimit ∧ o.isAuction = false

variable {o o' : Order} {price : Decimal}

theorem honours_congr (h : o'.limitTerms = o.limitTerms) : o'.Honours price ↔ o.Honours price := by
  simp only [limitTerms, Prod.mk.injEq] at h
  obtain ⟨hside, -, hlimit, -⟩ := h
  simp only [Honours, hside, hlimit]

theorem limitTermed_congr (h : o'.limitTerms = o.limitTerms) : o'.LimitTermed ↔ o.LimitTermed := by
  simp only [limitTerms, Prod.mk.injEq] at h
  obtain ⟨-, htype, hlimit, hlifetime⟩ := h
  simp only [LimitTermed, isAuction, htype, hlimit, hlifetime]

theorem honours_of_unlimited (ho : o.LimitTermed) (hlimit : o.orderType ≠ .limit)
    (hstop : o.orderType = .stopLimit → o.isAuction = true) : o.Honours price := by
  intro limit hmem _
  have hsome : o.limitPrice.isSome := by
    rw [Option.mem_def.mp hmem]
    rfl
  rcases ho hsome with htype | ⟨htype, hauction⟩
  · exact absurd htype hlimit
  · rw [hstop htype] at hauction
    cases hauction

end Order

theorem toOrder_limitTermed (request : OrderRequest) (expireAt : Option Instant) :
    (request.toOrder expireAt).LimitTermed := by
  have hvalid := request.terms.valid
  simp only [validTerms, Bool.and_eq_true, Bool.not_eq_true'] at hvalid
  obtain ⟨⟨⟨hlimit, -⟩, -⟩, hauction⟩ := hvalid
  intro hsome
  have hsome : request.terms.limitPrice.isSome = true := hsome
  rw [hsome] at hlimit
  have htype : request.terms.orderType = .limit ∨ request.terms.orderType = .stopLimit := by
    simpa using hlimit
  rcases htype with hlimited | hstop
  · exact Or.inl hlimited
  · rw [hstop] at hauction
    exact Or.inr ⟨hstop, (Bool.and_true _).symm.trans hauction⟩

/-! ## What executions are priced at -/

/-- A run whose executions a cost model prices: what a taker is charged, and what a maker,
    with a commission of its own. -/
def SimulationConfig.PricedBy (c : SimulationConfig) (model : ExecutionCostModel)
    (maker : Option (Decimal → Decimal → Decimal)) (minorUnits : String → Option ℕ) : Prop :=
  ∀ passive context, c.quoted passive context =
    (if passive then model.passiveCosts maker else model).priced (minorUnits context.assetId)
      context

theorem within_of_no_worse {side : Side} {limit price price' : Decimal}
    (hprice : match side with
      | .buy => price ≤ price'
      | .sell => price' ≤ price)
    (h : side.within limit price' = true) : side.within limit price = true := by
  cases side with
  | buy => exact decide_eq_true ((hprice : price ≤ price').trans (of_decide_eq_true h))
  | sell => exact decide_eq_true ((of_decide_eq_true h).trans (hprice : price' ≤ price))

section
variable {c : SimulationConfig} {model : ExecutionCostModel}
  {maker : Option (Decimal → Decimal → Decimal)} {minorUnits : String → Option ℕ}
  {x : EventContext} {order : Order} {price : Decimal} {fill : PricedFill}

/-- What an execution at a price may cost an order: every fill of no more than what remains
    of it is within its limit. -/
def SimulationConfig.PricesWithin (c : SimulationConfig) (x : EventContext) (order : Order)
    (price : Decimal) (passive : Bool) : Prop :=
  ∀ quantity ≤ order.remainingQuantity, ∀ fill,
    c.quoted passive (c.costContext x.event order quantity price) = some fill →
    order.Honours fill.price

/-- **A taker quoted within the limit pays within it**: what fills is no more than what was
    quoted, and costs no more for it. -/
theorem taken_honours (hc : c.PricedBy model maker minorUnits) (hmodel : model.NonNegative)
    (hquoted : c.quoted false (c.costContext x.event order order.remainingQuantity price) =
      some fill)
    (hwithin : order.withinLimit fill.price = true) : c.PricesWithin x order price false := by
  intro quantity hquantity filled hfilled limit hlimit _
  have hlimited : order.side.within limit fill.price = true := by
    rw [Order.withinLimit, Option.mem_def.mp hlimit] at hwithin
    exact hwithin
  rw [hc] at hquoted hfilled
  have hpart : model.priced (minorUnits order.assetId)
      ((c.costContext x.event order order.remainingQuantity price).sized quantity) =
      some filled := hfilled
  have hwhole : model.priced (minorUnits order.assetId)
      ((c.costContext x.event order order.remainingQuantity price).sized
        order.remainingQuantity) = some fill := hquoted
  exact within_of_no_worse (priced_mono hmodel hquantity hpart hwhole) hlimited

theorem passive_honours (hc : c.PricedBy model maker minorUnits)
    (hwithin : order.withinLimit price = true) : c.PricesWithin x order price true := by
  intro quantity _ filled hfilled limit hlimit hexact
  have hlimited : order.side.within limit price = true := by
    rw [Order.withinLimit, Option.mem_def.mp hlimit] at hwithin
    exact hwithin
  rw [hc] at hfilled
  have hprice : filled.price = inContext price := passive_priced hfilled
  rw [hprice]
  have hexact : inContext limit = limit := hexact
  -- the limit is carried as it is, so that rounding the price does not cross it
  cases hside : order.side with
  | buy =>
    rw [hside] at hlimited
    refine decide_eq_true ?_
    rw [← hexact]
    exact inContext_monotone (of_decide_eq_true hlimited)
  | sell =>
    rw [hside] at hlimited
    refine decide_eq_true ?_
    rw [← hexact]
    exact inContext_monotone (of_decide_eq_true hlimited)

theorem restingFillPrice_within {event : MarketEvent}
    (h : order.restingFillPrice event = some price) : order.withinLimit price = true := by
  obtain ⟨limit, hlimit, h⟩ := Option.bind_eq_some_iff.mp h
  rw [Order.withinLimit, hlimit, Option.any_some]
  have hself : ∀ side : Side, side.within limit limit = true := by
    rintro (- | -) <;> simp [Side.within]
  have hsome : ∀ {reached : Prop} [Decidable reached] {at_ : Decimal},
      (if reached then some at_ else none) = some price → at_ = price := by
    intro reached _ at_ h
    split_ifs at h
    exact Option.some.inj h
  cases hdata : event.data with
  | quote q =>
    cases hside : order.side <;> simp only [hside, hdata] at h <;> obtain rfl := hsome h
    · exact hself _
    · exact hself _
  | bar b =>
    cases hside : order.side <;> simp only [hside, hdata] at h <;> obtain rfl := hsome h
    · simp [Side.within]
    · simp [Side.within]
  | tick t | trade t =>
    simp only [hdata] at h
    obtain rfl := hsome h
    exact hself _
  | book => simp [hdata] at h

end

/-! ## Runs within their limits -/

/-- **Every execution of a run is within the limit of its order**, and every order carries its
    limit as terms do. -/
structure SimState.WithinLimits (s : SimState) : Prop where
  terms : ∀ orderId o, s.pipeline.orders.get? orderId = some o → o.LimitTermed
  executions : ∀ r ∈ s.pipeline.executions,
    ∃ o, s.pipeline.orders.get? r.orderId = some o ∧ o.Honours r.fillPrice

section
variable {c : SimulationConfig} {x : EventContext} {s t : SimState} {order : Order}

theorem withinLimits_of_untraded (hs : s.WithinLimits)
    (h : PipelineState.Untraded s.pipeline t.pipeline) : t.WithinLimits := by
  constructor
  · intro orderId o ho
    rcases h.orders.mem_of_get? ho with ⟨o₁, ho₁, hmoves⟩ | hnew
    · exact (Order.limitTermed_congr hmoves.limitTerms).mpr (hs.terms orderId o₁ ho₁)
    · cases hnew
  · intro r hr
    rw [h.executions] at hr
    obtain ⟨o, ho, hhonours⟩ := hs.executions r hr
    obtain ⟨o₁, ho₁, hmoves⟩ := h.orders.orders _ o ho
    exact ⟨o₁, ho₁, (Order.honours_congr hmoves.limitTerms).mpr hhonours⟩

theorem onPipeline_limits {move : PipelineState → Except PipelineRefusal PipelineState}
    (hmove : ∀ p, move s.pipeline = .ok p → PipelineState.Untraded s.pipeline p)
    (hs : s.WithinLimits) (h : s.onPipeline move = .ok t) : t.WithinLimits := by
  obtain ⟨p, hp, rfl⟩ := onPipeline_ok.mp h
  exact withinLimits_of_untraded hs (hmove p hp)

variable {orderId : String} {timestamp : Instant}

theorem ended_limits {ending : OrderEnding} (hs : s.WithinLimits)
    (h : s.onPipeline (·.ended orderId ending timestamp) = .ok t) :
    t.WithinLimits :=
  onPipeline_limits (fun _ => PipelineState.Untraded.ended) hs h

theorem withdrawn_limits (hs : s.WithinLimits)
    (h : s.onPipeline (·.withdrawPartialRemainder orderId timestamp) = .ok t) :
    t.WithinLimits :=
  onPipeline_limits (fun _ => PipelineState.Untraded.withdrawn) hs h

theorem restOrEnd_limits {oneShot : Bool} (hs : s.WithinLimits)
    (h : s.restOrEnd order timestamp oneShot = .ok t) : t.WithinLimits := by
  unfold SimState.restOrEnd at h
  split_ifs at h
  · exact ended_limits hs h
  · obtain rfl := pure_ok.mp h
    exact hs

/-- **An accepted report fills no more than remains of its order.** -/
theorem applyReport_within {p q : PipelineState} {rates : FxRates} {report : ExecutionReport}
    (ho : p.orders.get? order.orderId = some order) (hfill : report.status.isFill = true)
    (h : p.applyReport c.pipeline rates order report = .ok q) :
    report.fillQuantity ≤ order.remainingQuantity := by
  obtain ⟨filled, booked, notional, recorded, hfilled, -⟩ := PipelineState.applyReport_ok.mp h
  rcases PipelineState.reportToOms_ok hfilled with ⟨-, hfull, hpartial⟩ | ⟨o, o', ho', hmove, -⟩
  · cases hstatus : report.status <;> simp_all [FillStatus.isFill]
  · obtain rfl := Option.some.inj (ho.symm.trans ho')
    unfold Order.remainingQuantity
    rcases hmove with ⟨-, hmove⟩ | ⟨-, hmove⟩
    · obtain ⟨status, -, -, hwhole, -⟩ := AlphaLab.fill_ok.mp hmove
      linarith
    · obtain ⟨status, -, -, hpart, -⟩ := AlphaLab.partialFill_ok.mp hmove
      linarith

theorem executeAndBook_limits {decision : FillDecision} {price : Decimal} {passive : Bool}
    (hs : s.WithinLimits) (ho : s.pipeline.orders.get? order.orderId = some order)
    (hprice : c.PricesWithin x order price passive)
    (h : s.executeAndBook c x order decision price passive = .ok t) : t.WithinLimits := by
  simp only [SimState.executeAndBook, bind_ok, executeOrder_iff] at h
  obtain ⟨⟨executed, traded⟩, ⟨-, report, hreport, htraded, hstate⟩, h⟩ := h
  dsimp only at htraded hstate h
  by_cases hfill : decision.status.isFill = true
  · rw [if_pos hfill] at htraded
    subst htraded
    dsimp only at h
    obtain ⟨p, hp, rfl⟩ := onPipeline_ok.mp h
    simp only [SimulationConfig.simulateFill, bind_ok, orRefuse_ok, require_ok, pure_ok,
      exists_const] at hreport
    obtain ⟨priced, hpriced, -, rfl⟩ := hreport
    have hplace : executed.pipeline.orders.get? order.orderId = some order := by rw [hstate]; exact ho
    have hquantity := applyReport_within hplace hfill hp
    have hhonours : order.Honours priced.price := hprice _ hquantity _ hpriced
    refine withinLimits_of_untraded (s := executed) ?_ (.applied hp)
    rw [hstate]
    constructor
    · exact hs.terms
    · intro r hr
      rcases List.mem_append.mp hr with hr | hr
      · exact hs.executions r hr
      · obtain rfl := List.mem_singleton.mp hr
        exact ⟨order, ho, hhonours⟩
  · rw [if_neg hfill] at htraded
    subst htraded
    dsimp only at h
    refine ended_limits ?_ h
    rw [hstate]
    exact ⟨hs.terms, by simpa [SimState.attempted] using hs.executions⟩

variable {base : Decimal}

/-- **An order's one attempt**: it carries no limit. -/
theorem simulateFill_limits (hs : s.WithinLimits)
    (ho : s.pipeline.orders.get? order.orderId = some order) (hlimit : order.orderType ≠ .limit)
    (hstop : order.orderType ≠ .stopLimit) (h : s.simulateFill c x order base = .ok t) :
    t.WithinLimits := by
  unfold SimState.simulateFill at h
  dsimp only at h
  split_ifs at h
  · obtain rfl := pure_ok.mp h
    exact hs
  · exact ended_limits hs h
  · simp only [bind_ok] at h
    obtain ⟨booked, hbooked, h⟩ := h
    refine withdrawn_limits (executeAndBook_limits hs ho ?_ hbooked) h
    intro quantity _ fill _
    exact Order.honours_of_unlimited (hs.terms _ _ ho) hlimit fun h => absurd h hstop

/-- **What an event offers an order at a price of its own**, whatever the policy and the
    queue leave of it. -/
theorem workResting_limits {policy : FillPolicy} {price : Decimal} {passive oneShot : Bool}
    {cap : Option Decimal} (hs : s.WithinLimits)
    (ho : s.pipeline.orders.get? order.orderId = some order)
    (hprice : c.PricesWithin x order price passive)
    (h : s.workResting c x policy order price passive oneShot cap = .ok t) : t.WithinLimits := by
  unfold SimState.workResting at h
  dsimp only at h
  split_ifs at h
  · exact restOrEnd_limits hs h
  · exact ended_limits hs h
  · exact restOrEnd_limits hs h
  · simp only [bind_ok] at h
    obtain ⟨booked, hbooked, h⟩ := h
    exact withdrawn_limits (executeAndBook_limits hs ho hprice hbooked) h
  · simp only [bind_ok, pure_ok] at h
    obtain ⟨booked, hbooked, rfl⟩ := h
    exact executeAndBook_limits hs ho hprice hbooked

theorem withinLimits_of_pipeline {u : SimState} (hs : s.WithinLimits)
    (h : u.pipeline = s.pipeline) : u.WithinLimits :=
  withinLimits_of_untraded hs (h ▸ .refl _)

/-! ### Turns -/

variable {model : ExecutionCostModel} {maker : Option (Decimal → Decimal → Decimal)}
  {minorUnits : String → Option ℕ} (hc : c.PricedBy model maker minorUnits)
  (hmodel : model.NonNegative)
include hc

variable {arriving : Bool}

theorem workAuction_limits (hauction : order.isAuction = true) (hs : s.WithinLimits)
    (ho : s.pipeline.orders.get? order.orderId = some order)
    (h : s.workAuction c x order arriving = .ok t) : t.WithinLimits := by
  unfold SimState.workAuction at h
  split at h
  · obtain rfl := pure_ok.mp h
    exact hs
  · rename_i bar _
    dsimp only at h
    generalize (if order.timeInForce = .opg then bar.open else bar.close) = price at h
    by_cases hexpires : order.orderType = .limit ∧ ¬ order.withinLimit price = true
    · rw [if_pos hexpires] at h
      exact ended_limits hs h
    · rw [if_neg hexpires] at h
      refine workResting_limits hs ho ?_ h
      by_cases htype : order.orderType = .limit
      · refine passive_honours hc ?_
        by_contra hwithin
        exact hexpires ⟨htype, hwithin⟩
      · intro quantity _ fill _
        exact Order.honours_of_unlimited (hs.terms _ _ ho) htype fun _ => hauction

variable {turn : Option QueueTurn}

theorem workRested_limits (hs : s.WithinLimits)
    (ho : s.pipeline.orders.get? order.orderId = some order)
    (h : s.workRested c x order turn = .ok t) : t.WithinLimits := by
  unfold SimState.workRested at h
  dsimp only at h
  split at h
  · exact restOrEnd_limits hs h
  · rename_i price hreached
    split_ifs at hreached
    exact workResting_limits hs ho (passive_honours hc (restingFillPrice_within hreached)) h

/-- **What a reopening auction gives an order at its price.** -/
theorem crossOrder_limits {price : Decimal} {allotted : Option Allotment} (hs : s.WithinLimits)
    (ho : s.pipeline.orders.get? order.orderId = some order)
    (hreaches : SimState.reaches order price = true)
    (h : s.crossOrder c x order price allotted = .ok t) : t.WithinLimits := by
  have hprice : c.PricesWithin x order price true := by
    simp only [SimState.reaches, Bool.or_eq_true, Bool.and_eq_true, decide_eq_true_eq] at hreaches
    rcases hreaches with htype | ⟨-, hwithin⟩
    · intro quantity _ fill _
      refine Order.honours_of_unlimited (hs.terms _ _ ho) ?_ ?_
      · simp [htype]
      · simp [htype]
    · exact passive_honours hc hwithin
  unfold SimState.crossOrder at h
  cases allotted with
  | none => exact workResting_limits hs ho hprice h
  | some allotted =>
    dsimp only at h
    split_ifs at h
    · exact restOrEnd_limits hs h
    · exact workResting_limits hs ho hprice h
    · exact workResting_limits hs ho hprice h

include hmodel

theorem workArriving_limits (hs : s.WithinLimits)
    (ho : s.pipeline.orders.get? order.orderId = some order)
    (h : s.workArriving c x order base = .ok t) : t.WithinLimits := by
  simp only [SimState.workArriving, SimState.takerPrice, bind_ok, orRefuse_ok, pure_ok] at h
  obtain ⟨taken, ⟨_, -, fill, hquoted, rfl⟩, h⟩ := h
  split_ifs at h with hwithin
  · exact workResting_limits hs ho (taken_honours hc hmodel hquoted hwithin) h
  · exact restOrEnd_limits hs h

theorem workLimit_limits (hs : s.WithinLimits)
    (ho : s.pipeline.orders.get? order.orderId = some order)
    (h : s.workLimit c x order base arriving turn = .ok t) : t.WithinLimits := by
  unfold SimState.workLimit at h
  split_ifs at h
  · exact workArriving_limits hc hmodel hs ho h
  · exact workRested_limits hc hs ho h

theorem workStop_limits {marketPrice : Decimal} (hs : s.WithinLimits)
    (ho : s.pipeline.orders.get? order.orderId = some order)
    (h : s.workStop c x order marketPrice arriving = .ok t) : t.WithinLimits := by
  unfold SimState.workStop at h
  split at h
  · exact restOrEnd_limits hs h
  · split_ifs at h with hstop
    · refine simulateFill_limits hs ho ?_ ?_ h
      · simp [hstop]
      · simp [hstop]
    · simp only [bind_ok, mapError_ok, orderOf_ok] at h
      obtain ⟨triggered, htriggered, order', horder', h⟩ := h
      have hmarked : triggered.WithinLimits := by
        refine onPipeline_limits (fun p hp => ?_) hs htriggered
        simp only [bind_ok, mapError_ok, pure_ok] at hp
        obtain ⟨orders, horders, rfl⟩ := hp
        exact .triggered horders
      have hplace : triggered.pipeline.orders.get? order'.orderId = some order' := by
        rw [Register.key_of_get? horder']
        exact horder'
      exact workArriving_limits hc hmodel hmarked hplace h

/-- **An order's turn at an event** keeps the run within its limits. -/
theorem workOrder_limits (hs : s.WithinLimits)
    (ho : s.pipeline.orders.get? order.orderId = some order)
    (h : s.workOrder c x order arriving turn = .ok t) : t.WithinLimits := by
  unfold SimState.workOrder at h
  by_cases hexpired : order.expireAt.any (· ≤ x.event.timestamp)
  · rw [if_pos hexpired] at h
    exact ended_limits hs h
  · rw [if_neg hexpired, bind_ok] at h
    obtain ⟨marketPrice, -, h⟩ := h
    by_cases hblocked : s.venueBlocks x order.assetId marketPrice
    · rw [if_pos hblocked] at h
      exact restOrEnd_limits hs h
    rw [if_neg hblocked] at h
    by_cases hauction : order.isAuction
    · rw [if_pos hauction] at h
      exact workAuction_limits hc hauction hs ho h
    · rw [if_neg hauction] at h
      cases htype : order.orderType with
      | market =>
        rw [htype] at h
        refine simulateFill_limits hs ho ?_ ?_ h
        · simp [htype]
        · simp [htype]
      | limit =>
        rw [htype] at h
        exact workLimit_limits hc hmodel hs ho h
      | stop =>
        rw [htype] at h
        exact workStop_limits hc hmodel hs ho h
      | stopLimit =>
        rw [htype] at h
        dsimp only at h
        split_ifs at h
        · exact workStop_limits hc hmodel hs ho h
        · exact workLimit_limits hc hmodel hs ho h

theorem workTurn_limits (hs : s.WithinLimits) (h : s.workTurn c x orderId = .ok t) :
    t.WithinLimits := by
  simp only [SimState.workTurn, bind_ok, mapError_ok, orderOf_ok] at h
  obtain ⟨order, ho, worked, hworked, after, -, h⟩ := h
  have hplace : (s.queueAt order (s.queueTurn x order)).pipeline.orders.get? order.orderId =
      some order := by
    rw [queueAt_pipeline, Register.key_of_get? ho]
    exact ho
  have hkept : worked.WithinLimits := workOrder_limits hc hmodel
    (withinLimits_of_pipeline hs queueAt_pipeline) hplace hworked
  split_ifs at h
  · obtain rfl := pure_ok.mp h
    exact withinLimits_of_pipeline hkept joinQueue_pipeline
  · obtain rfl := pure_ok.mp h
    exact hkept
  · obtain rfl := pure_ok.mp h
    exact withinLimits_of_pipeline hkept leaveQueue_pipeline

theorem uncrossTurn_limits {price : Decimal} {ended : Instant} {allotted : Option Allotment}
    (hs : s.WithinLimits) (h : s.uncrossTurn c x price ended allotted orderId = .ok t) :
    t.WithinLimits := by
  simp only [SimState.uncrossTurn, bind_ok, mapError_ok, orderOf_ok] at h
  obtain ⟨order, ho, h⟩ := h
  have hplace : s.pipeline.orders.get? order.orderId = some order := by
    rw [Register.key_of_get? ho]
    exact ho
  split_ifs at h with hwaited hreached
  · exact workOrder_limits hc hmodel hs hplace h
  · simp only [bind_ok, mapError_ok, orderOf_ok, pure_ok] at h
    obtain ⟨crossed, hcrossed, after, -, rfl⟩ := h
    exact withinLimits_of_pipeline (crossOrder_limits hc hs hplace hreached hcrossed)
      leaveQueue_pipeline
  · obtain rfl := pure_ok.mp h
    exact hs

/-- **An event** keeps the run within its limits: in continuous trading, and in an auction. -/
theorem workEvent_limits (hs : s.WithinLimits) (h : s.workEvent c x = .ok t) : t.WithinLimits := by
  obtain ⟨horders, -, hexecutions, -⟩ := marked_orders (s := s) x.event
  have hmarked : (s.marked x.event).WithinLimits :=
    withinLimits_of_untraded hs (.of_orders horders hexecutions)
  refine workEvent_invariant hmarked (fun _ _ _ hu => withinLimits_of_pipeline hu rfl) ?_ ?_ h
  · intro u v k hu hturn
    exact workTurn_limits hc hmodel hu hturn
  · intro u v k price ended allotted hu hturn
    exact uncrossTurn_limits hc hmodel hu hturn

/-- **An arrival** keeps the run within its limits. -/
theorem arrive_limits {rest : Bool} (hs : s.WithinLimits) (h : s.arrive c x rest = .ok t) :
    t.WithinLimits := by
  unfold SimState.arrive at h
  split at h
  · cases h
  · rename_i request pending _
    split at h
    · obtain rfl := pure_ok.mp h
      exact withinLimits_of_untraded hs (.of_orders rfl rfl)
    · rename_i expireAt _
      simp only [bind_ok, mapError_ok] at h
      obtain ⟨placed, hplaced, h⟩ := h
      obtain ⟨hnew, o, hid, horder, rfl⟩ := PipelineState.submitAndAccept_ok hplaced
      have hkept : SimState.WithinLimits { s with
          pipeline := { s.pipeline with
            orders := (s.pipeline.orders.put (request.toOrder expireAt)).put o }
          pending := pending } := by
        constructor
        · intro k o₁ ho₁
          rcases Register.get?_put_cases ho₁ with ⟨-, rfl⟩ | ⟨-, ho₁⟩
          · rw [horder]
            exact toOrder_limitTermed request expireAt
          · rcases Register.get?_put_cases ho₁ with ⟨-, rfl⟩ | ⟨-, ho₁⟩
            · exact toOrder_limitTermed request expireAt
            · exact hs.terms k o₁ ho₁
        · intro r hr
          obtain ⟨o₁, ho₁, hhonours⟩ := hs.executions r hr
          have hk : r.orderId ≠ request.orderId := by
            intro heq
            rw [heq, hnew] at ho₁
            cases ho₁
          have hrequest : r.orderId ≠ (request.toOrder expireAt).orderId := hk
          refine ⟨o₁, ?_, hhonours⟩
          rw [Register.get?_put_of_ne _ (hid ▸ hk), Register.get?_put_of_ne _ hrequest]
          exact ho₁
      simp only [SimState.workArrival, bind_ok, mapError_ok, orderOf_ok] at h
      obtain ⟨order, ho, h⟩ := h
      have hplace := ho
      rw [← Register.key_of_get? ho] at hplace
      split_ifs at h
      · obtain rfl := pure_ok.mp h
        exact hkept
      · exact workOrder_limits hc hmodel hkept hplace h

/-- **Each call keeps the run within its limits.** -/
theorem simStep_limits {call : SimCall} (hs : s.WithinLimits) (h : simStep c s call = .ok t) :
    t.WithinLimits := by
  cases call with
  | event x => exact workEvent_limits hc hmodel hs h
  | arrive x rest => exact arrive_limits hc hmodel hs h
  | call call =>
    simp only [simStep, bind_ok, require_ok, mapError_ok, pure_ok, exists_const] at h
    obtain ⟨hcall, routed, hrouted, rfl⟩ := h
    exact withinLimits_of_untraded hs (pipelineStep_untraded hcall hrouted)
  | endStep x restingBefore =>
    obtain rfl := pure_ok.mp h
    obtain ⟨queue, hqueue⟩ := queueAfterStep_with (s := s) (c := c) (x := x) restingBefore
    rw [hqueue]
    exact withinLimits_of_pipeline hs rfl

/-- **A child's fill is within the child's limit**, taken or resting. -/
theorem workChild_honours {child : ChildOrder} {working limit : Decimal} {turn : ChildTurn}
    (htype : child.orderType = .limit) (hlimit : child.limitPrice = some limit)
    (hexact : Exact limit) (h : s.workChild c x child working arriving = .ok turn) :
    ∀ r ∈ turn.report, child.side.within limit r.fillPrice = true := by
  simp only [SimState.workChild, bind_ok, require_ok, orRefuse_ok, exists_const] at h
  obtain ⟨-, priced, -, -, parent, -, ⟨-, -, hside⟩, -, ⟨met, passive⟩, hmet, h⟩ := h
  cases met with
  | none =>
    obtain rfl := pure_ok.mp h
    rintro r ⟨⟩
  | some price =>
    have hview : (parent.asChild child working).remainingQuantity = working :=
      add_sub_cancel_left _ _
    -- what remains of the child is what works of it, at the parent's identity
    have hprice : c.PricesWithin x (parent.asChild child working) price passive := by
      simp only [SimState.childPrice] at hmet
      rw [if_neg (by simpa [Order.asChild] using htype)] at hmet
      split_ifs at hmet
      · simp only [SimState.takerPrice, bind_ok, orRefuse_ok, pure_ok] at hmet
        obtain ⟨taken, ⟨_, -, fill, hquoted, rfl⟩, hmet⟩ := hmet
        split_ifs at hmet with hwithin
        · obtain ⟨hreached, rfl⟩ := Prod.mk.inj (pure_ok.mp hmet)
          obtain rfl := Option.some.inj hreached
          exact taken_honours hc hmodel hquoted hwithin
        · obtain ⟨hreached, rfl⟩ := Prod.mk.inj (pure_ok.mp hmet)
          exact passive_honours hc (restingFillPrice_within hreached)
      · obtain ⟨hreached, rfl⟩ := Prod.mk.inj (pure_ok.mp hmet)
        exact passive_honours hc (restingFillPrice_within hreached)
    have hfilled : ∀ decided, s.fillChild c x child parent working decided price passive =
        .ok turn → ∀ r ∈ turn.report, child.side.within limit r.fillPrice = true := by
      intro decided h
      simp only [SimState.fillChild, bind_ok, executeOrder_iff, pure_ok] at h
      obtain ⟨executed, ⟨-, report, hreport, htraded, -⟩, booked, -, rfl⟩ := h
      have hreported : executed.2 = some report ∨ executed.2 = none := by
        rw [htraded]
        exact ite_eq_or_eq _ _ _
      rintro r hr
      rcases hreported with htaken | hnone
      · obtain rfl := Option.some.inj (htaken.symm.trans hr)
        simp only [SimulationConfig.simulateFill, bind_ok, orRefuse_ok, require_ok, pure_ok,
          exists_const] at hreport
        obtain ⟨fill, hfill, -, rfl⟩ := hreport
        have hle : min decided working ≤ (parent.asChild child working).remainingQuantity := by
          rw [hview]
          exact min_le_right _ _
        have hhonours := hprice _ hle fill hfill limit hlimit hexact
        rwa [← hside]
      · cases hnone.symm.trans hr
    dsimp only at h
    unfold SimState.workChildAt at h
    split_ifs at h
    · obtain rfl := pure_ok.mp h
      rintro r ⟨⟩
    · dsimp only at h
      split at h
      · obtain rfl := pure_ok.mp h
        rintro r ⟨⟩
      · obtain rfl := pure_ok.mp h
        rintro r ⟨⟩
      · obtain rfl := pure_ok.mp h
        rintro r ⟨⟩
      · exact hfilled _ h
      · exact hfilled _ h

end

def SimulationConfig.pricedBy (c : SimulationConfig) (model : ExecutionCostModel)
    (maker : Option (Decimal → Decimal → Decimal)) (minorUnits : String → Option ℕ) :
    SimulationConfig :=
  { c with
    quoted := fun passive context =>
      (if passive then model.passiveCosts maker else model).priced (minorUnits context.assetId)
        context }

theorem initial_withinLimits (budget : CapitalBudget) (portfolio : PortfolioState)
    (marketPrices : Dict String Decimal) (queue : Option QueueModel) :
    (SimState.initial budget portfolio marketPrices queue).WithinLimits := by
  constructor
  · rintro orderId o ⟨⟩
  · rintro r ⟨⟩

/-- **A limit is a limit**: over a run that a shipped cost model prices, its parameters not
    negative, every execution of an order is within its limit, and every fill of a child
    within the child's, as far as prices carry the limit. -/
theorem limits_are_limits (c : SimulationConfig) {model : ExecutionCostModel}
    (hmodel : model.NonNegative) (maker : Option (Decimal → Decimal → Decimal))
    (minorUnits : String → Option ℕ) :
    (∀ s t : SimState, s.WithinLimits →
        Runs (simStep (c.pricedBy model maker minorUnits)) (fun _ _ => True) s t →
        t.WithinLimits) ∧
      ∀ (s : SimState) (x : EventContext) child working arriving turn limit,
        child.orderType = .limit → child.limitPrice = some limit → Exact limit →
        s.workChild (c.pricedBy model maker minorUnits) x child working arriving = .ok turn →
        ∀ r ∈ turn.report, child.side.within limit r.fillPrice = true := by
  have hc : (c.pricedBy model maker minorUnits).PricedBy model maker minorUnits :=
    fun _ _ => rfl
  constructor
  · intro s t hs hrun
    refine hrun.invariant SimState.WithinLimits hs ?_
    intro u call v hu _ h
    exact simStep_limits hc hmodel hu h
  · intro s x child working arriving turn limit htype hlimit hexact h
    exact workChild_honours hc hmodel htype hlimit hexact h

/-! ## Longer limits -/

/-- A model that charges a tenth of a percent for what it takes, and its square-root impact. -/
def takingCosts : ExecutionCostModel where
  spreadModel := .none
  slippageModel := .percentage 0.001
  impactModel := .squareRoot 0.01
  commissionModel _ _ := 0
  feeModel _ _ := 0
  taxModel _ _ := 0

def pricedSimulation : SimulationConfig := plainSimulation.pricedBy takingCosts none fun _ => none

def limitedPurchase (limit : Decimal) : AllocationInput :=
  { fourUnits with
    intents := [{
      strategyId := "A"
      instrument := "X"
      target := 4
      terms := { orderType := .limit, limitPrice := some limit, timeInForce := .gtc,
                 valid := rfl } }] }

def longLimit : Decimal := 10 + 6 / 10 ^ 33

/-- **A limit of more digits than prices carry is exceeded**: a purchase that rests at it is
    filled at it, and the price of the fill is rounded above it. -/
theorem long_limit_exceeded :
    ∃ t, Runs (simStep pricedSimulation) (fun _ _ => True) printedRun t ∧
      ∃ r ∈ t.pipeline.executions, ∃ o, t.pipeline.orders.get? r.orderId = some o ∧
        o.side = .buy ∧ o.limitPrice = some longLimit ∧ longLimit < r.fillPrice := by
  obtain ⟨t, hrun, hfilled⟩ := exists_ok_of (x :=
    [.call (.allocate (limitedPurchase longLimit)), .arrive oneThrough true,
      .event oneThrough].foldlM (simStep pricedSimulation) printedRun)
    (fun t => t.pipeline.executions.any (fun r => (t.pipeline.orders.get? r.orderId).any fun o =>
      decide (o.side = .buy ∧ o.limitPrice = some longLimit ∧ longLimit < r.fillPrice)) = true)
    (by decide +kernel)
  obtain ⟨r, hr, ho⟩ := List.any_eq_true.mp hfilled
  obtain ⟨o, ho, hlimit⟩ := (Option.any_eq_true _ _).mp ho
  exact ⟨t, .of_foldlM hrun fun _ _ _ => trivial, r, hr, o, ho, of_decide_eq_true hlimit⟩

/-- A purchase limited to eleven takes a print of nine, and pays what its costs add, within
    its limit. -/
theorem limits_are_limits_eleven :
    ∃ t r, Runs (simStep pricedSimulation) (fun _ _ => True) printedRun t ∧
      t.pipeline.executions = [r] ∧ 9 < r.fillPrice ∧ t.WithinLimits := by
  obtain ⟨t, hrun, htaken⟩ := exists_ok_of (x :=
    [.call (.allocate (limitedPurchase 11)), .arrive oneThrough false].foldlM
      (simStep pricedSimulation) printedRun)
    (fun t => (t.pipeline.executions.head?).any (fun r =>
      decide (t.pipeline.executions = [r] ∧ 9 < r.fillPrice)) = true)
    (by decide +kernel)
  obtain ⟨r, -, hr⟩ := (Option.any_eq_true _ _).mp htaken
  obtain ⟨honly, hcosts⟩ := of_decide_eq_true hr
  have hmodel : takingCosts.NonNegative := by
    constructor <;> norm_num [takingCosts, SlippageModel.NonNegative, ImpactModel.NonNegative]
  have hruns : Runs (simStep pricedSimulation) (fun _ _ => True) printedRun t :=
    .of_foldlM hrun fun _ _ _ => trivial
  exact ⟨t, r, hruns, honly, hcosts, (limits_are_limits plainSimulation hmodel none fun _ => none).1
    printedRun t (initial_withinLimits _ _ _ _) hruns⟩

end AlphaLab
