/-
  What a simulated order's turn leaves of the rest of the run.

  * `PipelineState.Worked`: one order moved, on its own terms, and filled no more
    than a bound; the others are as they were;
  * `Turn` is that of a simulated run, with what the simulator was asked.
-/
import AlphaLab.Simulation.OrderMoves

namespace AlphaLab

open Fallible

/-! ## One order moved -/

/-- Between `s` and `t` one order moved, on its own terms, and filled no more than `most`;
    `none` bounds nothing. -/
structure PipelineState.Worked (orderId : String) (most : Option Decimal) (s t : PipelineState) :
    Prop where
  beside : PipelineState.Beside orderId s t
  untraded : PipelineState.Untraded s t
  filled : ∀ o o', s.orders.get? orderId = some o → t.orders.get? orderId = some o' →
    ∀ m ∈ most, o'.filledQuantity ≤ o.filledQuantity + m

namespace PipelineState.Worked

variable {orderId : String} {most : Option Decimal} {s t u : PipelineState}

theorem refl (hmost : ∀ m ∈ most, 0 ≤ m) : Worked orderId most s s := by
  refine ⟨.refl _ _, .refl s, ?_⟩
  intro o o' ho ho' m hm
  obtain rfl := Option.some.inj (ho.symm.trans ho')
  linarith [hmost m hm]

theorem trans_still (h : Worked orderId most s t) (h' : Worked orderId (some 0) t u) :
    Worked orderId most s u := by
  refine ⟨h.beside.trans h'.beside, h.untraded.trans h'.untraded, ?_⟩
  intro o o'' ho ho'' m hm
  obtain ⟨o', ho', -⟩ := h.untraded.orders.orders _ o ho
  linarith [h.filled o o' ho ho' m hm, h'.filled o' o'' ho' ho'' 0 rfl]

theorem put {o o' : Order} (ho : s.orders.get? orderId = some o) (hmoves : o.Moves o')
    (hfilled : ∀ m ∈ most, o'.filledQuantity ≤ o.filledQuantity + m) :
    Worked orderId most s (s.putOrder o') := by
  have hkey : o'.orderId = orderId := hmoves.terms.orderId.trans (Register.key_of_get? ho)
  refine ⟨PipelineState.put_beside ho hmoves.terms.orderId, .put ho hmoves rfl rfl, ?_⟩
  intro o₁ o₂ ho₁ ho₂ m hm
  obtain rfl := Option.some.inj (ho.symm.trans ho₁)
  rw [← hkey] at ho₂
  obtain rfl := Option.some.inj ((Register.get?_put_self _ _).symm.trans ho₂)
  exact hfilled m hm

theorem put_still {o o' : Order} (ho : s.orders.get? orderId = some o) (hmoves : o.Moves o')
    (hfilled : o'.filledQuantity = o.filledQuantity) :
    Worked orderId (some 0) s (s.putOrder o') := by
  refine put ho hmoves ?_
  intro m hm
  obtain rfl := Option.some.inj hm
  rw [hfilled, add_zero]

theorem of_orders (hbeside : PipelineState.Beside orderId s t) (horders : t.orders = s.orders)
    (hexecutions : t.executions = s.executions) (hmost : ∀ m ∈ most, 0 ≤ m) :
    Worked orderId most s t := by
  refine ⟨hbeside, .of_orders horders hexecutions, ?_⟩
  intro o o' ho ho' m hm
  rw [horders, ho] at ho'
  obtain rfl := Option.some.inj ho'
  linarith [hmost m hm]

end PipelineState.Worked

section
variable {orderId : String} {s t : PipelineState} {timestamp : Instant}

theorem ended_worked {ending : OrderEnding} (h : s.ended orderId ending timestamp = .ok t) :
    PipelineState.Worked orderId (some 0) s t := by
  obtain ⟨o, ho, hopen, rfl⟩ := PipelineState.ended_ok h
  have hput : PipelineState.Worked orderId (some 0) s
      (s.putOrder { o with status := ending.status, updatedAt := timestamp }) :=
    .put_still ho (.of_open hopen ⟨rfl, rfl, rfl, rfl, rfl, rfl, rfl⟩ rfl) rfl
  refine hput.trans_still (.of_orders (PipelineState.retireDroppedRequest_beside _ _ _) rfl rfl ?_)
  intro m hm
  exact (Option.some.inj hm).le

theorem withdrawPartialRemainder_worked
    (h : s.withdrawPartialRemainder orderId timestamp = .ok t) :
    PipelineState.Worked orderId (some 0) s t := by
  simp only [PipelineState.withdrawPartialRemainder, bind_ok] at h
  obtain ⟨order, -, h⟩ := h
  split_ifs at h
  · exact ended_worked h
  · obtain rfl := pure_ok.mp h
    exact .refl fun m hm => (Option.some.inj hm).le

theorem trigger_worked {orders : OrderBook} (h : s.orders.trigger orderId timestamp = .ok orders) :
    PipelineState.Worked orderId (some 0) s { s with orders := orders } := by
  simp only [OrderBook.trigger, OrderBook.find, bind_ok, orRefuse_ok, pure_ok] at h
  obtain ⟨o, ho, rfl⟩ := h
  split_ifs
  · exact .refl fun m hm => (Option.some.inj hm).le
  · exact .put_still ho ⟨⟨rfl, rfl, rfl, rfl, rfl, rfl, rfl⟩, rfl, id⟩ rfl

/-- **A report booked** moves its order alone, and fills no more than it reports. -/
theorem applyReport_worked {c : PipelineConfig} {rates : FxRates} {order : Order}
    {report : ExecutionReport} {most : Option Decimal} (horder : report.orderId = order.orderId)
    (hmost : ∀ m ∈ most, 0 ≤ m) (hfill : ∀ m ∈ most, report.fillQuantity ≤ m)
    (h : s.applyReport c rates order report = .ok t) :
    PipelineState.Worked order.orderId most s t := by
  have hbeside := PipelineState.applyReport_beside horder h
  have happlied := h
  obtain ⟨filled, booked, notional, recorded, hfilled, hbooked, -, -, rfl⟩ :=
    PipelineState.applyReport_ok.mp h
  obtain ⟨-, f, portfolio, -, -, -, rfl⟩ := PipelineState.reportToPortfolio_ok hbooked
  have hworked : PipelineState.Worked order.orderId most s filled := by
    rcases PipelineState.reportToOms_ok hfilled with ⟨rfl, -⟩ | ⟨o, o', ho, hmove, rfl⟩
    · exact .refl hmost
    · rcases hmove with ⟨-, hmove⟩ | ⟨-, hmove⟩
      · obtain ⟨status, hnext, -, -, rfl⟩ := AlphaLab.fill_ok.mp hmove
        refine .put ho (.of_open (isOpen_of_next hnext) (filledBy_sameTerms _ _ _ _) rfl) ?_
        intro m hm
        simpa [Order.filledBy] using hfill m hm
      · obtain ⟨status, hnext, -, -, rfl⟩ := AlphaLab.partialFill_ok.mp hmove
        refine .put ho (.of_open (isOpen_of_next hnext) (filledBy_sameTerms _ _ _ _) rfl) ?_
        intro m hm
        simpa [Order.filledBy] using hfill m hm
  refine ⟨hbeside, .applied happlied, ?_⟩
  intro o o' ho ho'
  rw [PipelineState.releaseIfTerminal_orders] at ho'
  exact hworked.filled o o' ho ho'

end

/-! ## Turns -/

def SimState.queueOf (s : SimState) (orderId : String) :
    Option (QueueModel × Option QueuePosition) :=
  s.queue.map fun book => (book.model, book.positions.get? orderId)

/-- What the simulator was asked between `s` and `t`, at an event and for the orders `among`,
    and what came of it. -/
def SimState.Attempted (x : EventContext) (among : String → Prop) (s t : SimState) : Prop :=
  ∃ new : List ExecutionAttempt, t.attempts = s.attempts ++ new ∧
    t.pipeline.executions = s.pipeline.executions ++ new.filterMap (·.report) ∧
    ∀ a ∈ new, a.timestamp = x.event.timestamp ∧ among a.orderId ∧
      ∀ r ∈ a.report, r.orderId = a.orderId

/-- **Between `s` and `t` one order had its turn at an event**, and filled no more than
    `most`; its own place in the queue stays unless it `shifts`. -/
structure Turn (x : EventContext) (shifts : Prop) (orderId : String) (most : Option Decimal)
    (s t : SimState) : Prop where
  beside : PipelineState.Beside orderId s.pipeline t.pipeline
  orders : OrderBook.Follows [] s.pipeline.orders t.pipeline.orders
  filled : ∀ o o', s.pipeline.orders.get? orderId = some o →
    t.pipeline.orders.get? orderId = some o' →
    ∀ m ∈ most, o'.filledQuantity ≤ o.filledQuantity + m
  attempts : SimState.Attempted x (· = orderId) s t
  reopened : t.reopened = s.reopened
  pending : t.pending = s.pending
  queue : ∀ k, (k = orderId → ¬ shifts) → t.queueOf k = s.queueOf k

section
variable {c : SimulationConfig} {x : EventContext} {shifts : Prop} {orderId : String}
  {most : Option Decimal} {s t u : SimState}

theorem attempted_nothing {among : String → Prop} (hattempts : t.attempts = s.attempts)
    (hexecutions : t.pipeline.executions = s.pipeline.executions) :
    SimState.Attempted x among s t := by
  refine ⟨[], ?_, ?_, ?_⟩
  · rw [hattempts, List.append_nil]
  · rw [hexecutions, List.filterMap_nil, List.append_nil]
  · rintro a ⟨⟩

theorem attempts_trans {among : String → Prop} (h : SimState.Attempted x among s t)
    (h' : SimState.Attempted x among t u) : SimState.Attempted x among s u := by
  obtain ⟨new, hnew, hexecuted, hof⟩ := h
  obtain ⟨new', hnew', hexecuted', hof'⟩ := h'
  refine ⟨new ++ new', by rw [hnew', hnew, List.append_assoc], ?_, ?_⟩
  · rw [hexecuted', hexecuted, List.filterMap_append, List.append_assoc]
  · intro a ha
    rcases List.mem_append.mp ha with ha | ha
    · exact hof a ha
    · exact hof' a ha

theorem Turn.of_worked {p : PipelineState}
    (h : PipelineState.Worked orderId most s.pipeline p) :
    Turn x shifts orderId most s { s with pipeline := p } :=
  ⟨h.beside, h.untraded.orders, h.filled, attempted_nothing rfl h.untraded.executions, rfl, rfl,
    fun _ _ => rfl⟩

theorem Turn.refl (hmost : ∀ m ∈ most, 0 ≤ m) : Turn x shifts orderId most s s :=
  .of_worked (.refl hmost)

variable {o : Order}

theorem Turn.order (h : Turn x shifts orderId most s t)
    (ho : s.pipeline.orders.get? orderId = some o) :
    ∃ o', t.pipeline.orders.get? orderId = some o' ∧ o.SameTerms o' ∧
      ∀ m ∈ most, o'.filledQuantity ≤ o.filledQuantity + m := by
  obtain ⟨o', ho', hmoves⟩ := h.orders.orders _ o ho
  exact ⟨o', ho', hmoves.terms, h.filled o o' ho ho'⟩

theorem Turn.trans_still (h : Turn x shifts orderId most s t)
    (h' : Turn x shifts orderId (some 0) t u) : Turn x shifts orderId most s u := by
  refine ⟨h.beside.trans h'.beside, h.orders.trans h'.orders, ?_,
    attempts_trans h.attempts h'.attempts, h'.reopened.trans h.reopened,
    h'.pending.trans h.pending, fun k hk => (h'.queue k hk).trans (h.queue k hk)⟩
  intro o o'' ho ho'' m hm
  obtain ⟨o', ho', -⟩ := h.orders.orders _ o ho
  linarith [h.filled o o' ho ho' m hm, h'.filled o' o'' ho' ho'' 0 rfl]

theorem Turn.mono {most' : Option Decimal} (h : Turn x shifts orderId most s t)
    (hmost : ∀ m' ∈ most', ∃ m ∈ most, m ≤ m') : Turn x shifts orderId most' s t := by
  refine ⟨h.beside, h.orders, ?_, h.attempts, h.reopened, h.pending, h.queue⟩
  intro o o' ho ho' m' hm'
  obtain ⟨m, hm, hle⟩ := hmost m' hm'
  linarith [h.filled o o' ho ho' m hm]

theorem Turn.still_trans (h : Turn x shifts orderId (some 0) s t)
    (h' : Turn x shifts orderId most t u) : Turn x shifts orderId most s u := by
  refine ⟨h.beside.trans h'.beside, h.orders.trans h'.orders, ?_,
    attempts_trans h.attempts h'.attempts, h'.reopened.trans h.reopened,
    h'.pending.trans h.pending, fun k hk => (h'.queue k hk).trans (h.queue k hk)⟩
  intro o o'' ho ho'' m hm
  obtain ⟨o', ho', -⟩ := h.orders.orders _ o ho
  linarith [h.filled o o' ho ho' 0 rfl, h'.filled o' o'' ho' ho'' m hm]

theorem Turn.of_still (hmost : ∀ m ∈ most, 0 ≤ m) (h : Turn x shifts orderId (some 0) s t) :
    Turn x shifts orderId most s t :=
  h.mono fun m hm => ⟨0, rfl, hmost m hm⟩

theorem onPipeline_ok {move : PipelineState → Except PipelineRefusal PipelineState} :
    s.onPipeline move = .ok t ↔ ∃ p, move s.pipeline = .ok p ∧ t = { s with pipeline := p } := by
  simp only [SimState.onPipeline, bind_ok, mapError_ok, pure_ok]
  exact exists_congr fun p => and_congr_right fun _ => eq_comm

theorem onPipeline_ended {ending : OrderEnding} {timestamp : Instant}
    (h : s.onPipeline (·.ended orderId ending timestamp) = .ok t) :
    Turn x shifts orderId (some 0) s t := by
  obtain ⟨p, hp, rfl⟩ := onPipeline_ok.mp h
  exact .of_worked (ended_worked hp)

theorem onPipeline_withdrawn {timestamp : Instant}
    (h : s.onPipeline (·.withdrawPartialRemainder orderId timestamp) = .ok t) :
    Turn x shifts orderId (some 0) s t := by
  obtain ⟨p, hp, rfl⟩ := onPipeline_ok.mp h
  exact .of_worked (withdrawPartialRemainder_worked hp)

variable {oneShot : Bool}

theorem restOrEnd_turn {order : Order} {timestamp : Instant}
    (h : s.restOrEnd order timestamp oneShot = .ok t) :
    Turn x shifts order.orderId (some 0) s t := by
  unfold SimState.restOrEnd at h
  split_ifs at h
  · exact onPipeline_ended h
  · obtain rfl := pure_ok.mp h
    exact .refl fun m hm => (Option.some.inj hm).le

variable {price : Decimal} {passive : Bool}

theorem executeOrder_ok {order : Order} {decision : FillDecision} {report : Option ExecutionReport}
    (h : s.executeOrder c x order decision price passive = .ok (t, report)) :
    ∃ attempt, t = s.attempted attempt ∧ attempt.timestamp = x.event.timestamp ∧
      attempt.orderId = order.orderId ∧ attempt.report = report ∧
      (report = none ↔ decision.status.isFill = false) ∧
      ∀ r, report = some r → r.orderId = order.orderId ∧ r.fillQuantity = decision.fills order := by
  simp only [SimState.executeOrder, SimulationConfig.simulateFill, bind_ok, orRefuse_ok,
    require_ok, pure_ok, exists_const, Prod.mk.injEq] at h
  obtain ⟨price', -, r, ⟨priced, -, -, rfl⟩, rfl, rfl⟩ := h
  refine ⟨_, rfl, rfl, rfl, rfl, ?_, ?_⟩
  · split_ifs with hfill <;> simp [hfill]
  · intro r hr
    split_ifs at hr
    obtain rfl := Option.some.inj hr
    exact ⟨rfl, rfl⟩

/-- **An execution booked** moves its order alone, and fills no more than was decided. -/
theorem executeAndBook_turn {order : Order} {decision : FillDecision} (hmost : ∀ m ∈ most, 0 ≤ m)
    (hfill : decision.status.isFill → ∀ m ∈ most, decision.fills order ≤ m)
    (h : s.executeAndBook c x order decision price passive = .ok t) :
    Turn x shifts order.orderId most s t := by
  simp only [SimState.executeAndBook, bind_ok] at h
  obtain ⟨⟨executed, report⟩, hexecuted, h⟩ := h
  obtain ⟨attempt, rfl, htime, hid, hreported, hnone, hreport⟩ := executeOrder_ok hexecuted
  have hattempted : Turn x shifts order.orderId (some 0) s (s.attempted attempt) := by
    refine ⟨⟨fun _ _ => rfl, fun _ _ => rfl, fun _ _ => rfl, rfl, rfl, rfl⟩, .refl _, ?_,
      ⟨[attempt], rfl, ?_, ?_⟩, rfl, rfl, fun _ _ => rfl⟩
    · intro o o' ho ho' m hm
      obtain rfl := Option.some.inj (ho.symm.trans ho')
      obtain rfl := Option.some.inj hm
      exact (add_zero _).ge
    · show s.pipeline.executions ++ attempt.report.toList = _
      cases htraded : attempt.report <;> simp [htraded]
    · intro a ha
      obtain rfl := List.mem_singleton.mp ha
      refine ⟨htime, hid, ?_⟩
      intro r hr
      exact (hreport r (hreported ▸ hr)).1.trans hid.symm
  cases report with
  | none =>
    refine .of_still hmost (hattempted.trans_still ?_)
    exact onPipeline_ended h
  | some r =>
    obtain ⟨hr, hquantity⟩ := hreport r rfl
    have hstatus : decision.status.isFill = true := by
      by_contra hstatus
      cases hnone.mpr (by simpa using hstatus)
    obtain ⟨p, hp, rfl⟩ := onPipeline_ok.mp h
    refine hattempted.still_trans (.of_worked ?_)
    refine applyReport_worked hr hmost ?_ hp
    rw [hquantity]
    exact hfill hstatus

variable {base : Decimal}

/-- **An order's one attempt** fills no more than the policy decides. -/
theorem simulateFill_turn {order : Order} (hmost : ∀ m ∈ most, 0 ≤ m) (hdecided : ∀ price,
      (decideFill x.policy order x.event price c.wholeUnits).status.isFill → ∀ m ∈ most, (decideFill
      x.policy order x.event price c.wholeUnits).fills order ≤ m)
    (h : s.simulateFill c x order base = .ok t) : Turn x shifts order.orderId most s t := by
  unfold SimState.simulateFill at h
  dsimp only at h
  split_ifs at h
  · obtain rfl := pure_ok.mp h
    exact .refl hmost
  · exact .of_still hmost (onPipeline_ended h)
  · simp only [bind_ok] at h
    obtain ⟨booked, hbooked, h⟩ := h
    have hexecuted : Turn x shifts order.orderId most s booked :=
      executeAndBook_turn hmost (hdecided base) hbooked
    exact hexecuted.trans_still (onPipeline_withdrawn h)

/-- **What an event offers an order at a price of its own** is no more than the policy
    decides, and than a queue allows. -/
theorem workResting_turn {policy : FillPolicy} {order : Order} {cap : Option Decimal}
    (hmost : ∀ m ∈ most, 0 ≤ m) (hdecided : ∀ price, (decideFill policy order x.event price
      c.wholeUnits).status.isFill → ∀ m ∈ most, (decideFill policy order x.event price
      c.wholeUnits).fills order ≤ m ∨ ∃ queued ∈ cap, queued ≤ m)
    (h : s.workResting c x policy order price passive oneShot cap = .ok t) :
    Turn x shifts order.orderId most s t := by
  unfold SimState.workResting at h
  dsimp only at h
  generalize hdecision : (cap.elim (decideFill policy order x.event price c.wholeUnits) fun cap =>
    withinQueue (decideFill policy order x.event price c.wholeUnits) order cap c.wholeUnits) =
    decision at h
  have hfill : decision.status.isFill → ∀ m ∈ most, decision.fills order ≤ m := by
    intro hstatus m hm
    cases cap with
    | none =>
      obtain rfl : decideFill policy order x.event price c.wholeUnits = decision := hdecision
      rcases hdecided price hstatus m hm with hle | ⟨queued, hqueued, -⟩
      · exact hle
      · cases hqueued
    | some queued =>
      obtain rfl : withinQueue (decideFill policy order x.event price c.wholeUnits) order queued
        c.wholeUnits = decision := hdecision
      obtain ⟨hfills, hqueue, hpolicy⟩ := withinQueue_le hstatus
      rcases hdecided price hfills m hm with hle | ⟨queued', hqueued', hle⟩
      · exact hpolicy.trans hle
      · obtain rfl := Option.some.inj hqueued'
        exact hqueue.trans hle
  split_ifs at h with _ _ _ honce
  · exact .of_still hmost (restOrEnd_turn h)
  · exact .of_still hmost (onPipeline_ended h)
  · exact .of_still hmost (restOrEnd_turn h)
  · simp only [bind_ok] at h
    obtain ⟨booked, hbooked, h⟩ := h
    have hexecuted : Turn x shifts order.orderId most s booked :=
      executeAndBook_turn hmost hfill hbooked
    exact hexecuted.trans_still (onPipeline_withdrawn h)
  · simp only [bind_ok, pure_ok] at h
    obtain ⟨booked, hbooked, rfl⟩ := h
    exact executeAndBook_turn hmost hfill hbooked

/-! ## Whole turns -/

/-- What the policy decides of the orders of a side at an event is no more than `most`. -/
structure EventContext.FillsWithin (c : SimulationConfig) (x : EventContext) (side : Side)
    (most : Option Decimal) : Prop where
  nonneg : ∀ m ∈ most, 0 ≤ m
  decided : ∀ order price, order.side = side →
    (decideFill x.policy order x.event price c.wholeUnits).status.isFill →
    ∀ m ∈ most, (decideFill x.policy order x.event price c.wholeUnits).fills order ≤ m

theorem fillsWithin_none (c : SimulationConfig) (x : EventContext) (side : Side) :
    x.FillsWithin c side none := by
  constructor
  · rintro m ⟨⟩
  · rintro order price - - m ⟨⟩

theorem fillsWithin_capped {rate shown : Decimal} {side : Side}
    (hpolicy : x.policy = liquidityCappedFill rate)
    (hshown : x.event.availableQuantity side = some shown) :
    x.FillsWithin c side (some (max 0 (multiply shown rate))) := by
  constructor
  · intro m hm
    obtain rfl := Option.some.inj hm
    exact le_max_left _ _
  · intro order price hside hfill m hm
    obtain rfl := Option.some.inj hm
    rw [hpolicy] at hfill ⊢
    subst hside
    exact (decideFill_le hshown hfill).trans (le_max_right _ _)

variable {arriving : Bool} {turn : Option QueueTurn}

section
variable {order : Order} (hwithin : x.FillsWithin c order.side most)
include hwithin

theorem workResting_within {cap : Option Decimal}
    (h : s.workResting c x x.policy order price passive oneShot cap = .ok t) :
    Turn x shifts order.orderId most s t :=
  workResting_turn hwithin.nonneg
    (fun price hfill m hm => Or.inl (hwithin.decided order price rfl hfill m hm)) h

theorem simulateFill_within (h : s.simulateFill c x order base = .ok t) :
    Turn x shifts order.orderId most s t :=
  simulateFill_turn hwithin.nonneg (hwithin.decided order · rfl) h

theorem workAuction_turn (h : s.workAuction c x order arriving = .ok t) :
    Turn x shifts order.orderId most s t := by
  unfold SimState.workAuction at h
  split at h
  · obtain rfl := pure_ok.mp h
    exact .refl hwithin.nonneg
  · dsimp only at h
    split_ifs at h
    · exact .of_still hwithin.nonneg (onPipeline_ended h)
    · exact workResting_within hwithin h
    · exact .of_still hwithin.nonneg (onPipeline_ended h)
    · exact workResting_within hwithin h

theorem workArriving_turn (h : s.workArriving c x order base = .ok t) :
    Turn x shifts order.orderId most s t := by
  simp only [SimState.workArriving, bind_ok] at h
  obtain ⟨taken, -, h⟩ := h
  split_ifs at h
  · exact workResting_within hwithin h
  · exact .of_still hwithin.nonneg (restOrEnd_turn h)

theorem workRested_turn (h : s.workRested c x order turn = .ok t) :
    Turn x shifts order.orderId most s t := by
  unfold SimState.workRested at h
  dsimp only at h
  split at h
  · exact .of_still hwithin.nonneg (restOrEnd_turn h)
  · exact workResting_within hwithin h

theorem workLimit_turn (h : s.workLimit c x order base arriving turn = .ok t) :
    Turn x shifts order.orderId most s t := by
  unfold SimState.workLimit at h
  split_ifs at h
  · exact workArriving_turn hwithin h
  · exact workRested_turn hwithin h

theorem workStop_turn {marketPrice : Decimal}
    (hget : s.pipeline.orders.get? order.orderId = some order)
    (h : s.workStop c x order marketPrice arriving = .ok t) :
    Turn x shifts order.orderId most s t := by
  unfold SimState.workStop at h
  split at h
  · exact .of_still hwithin.nonneg (restOrEnd_turn h)
  · split_ifs at h
    · exact simulateFill_within hwithin h
    · simp only [bind_ok, mapError_ok] at h
      obtain ⟨triggered, htriggered, order', horder', h⟩ := h
      simp only [onPipeline_ok, bind_ok, mapError_ok, pure_ok] at htriggered
      obtain ⟨p, ⟨orders, horders, rfl⟩, rfl⟩ := htriggered
      have hmarked : Turn x shifts order.orderId (some 0) s
          { s with pipeline := { s.pipeline with orders := orders } } :=
        .of_worked (trigger_worked horders)
      -- what is read back is the order, on its own terms
      simp only [PipelineState.orderOf, mapError_ok, OrderBook.find, orRefuse_ok] at horder'
      obtain ⟨o', ho', hterms, -⟩ := hmarked.order hget
      obtain rfl := Option.some.inj (ho'.symm.trans horder')
      have hworked : Turn x shifts o'.orderId most _ t :=
        workArriving_turn (hterms.side ▸ hwithin) h
      rw [hterms.orderId] at hworked
      exact hmarked.still_trans hworked

/-- **An order's turn at an event** fills no more than the policy decides of its side. -/
theorem workOrder_turn (hget : s.pipeline.orders.get? order.orderId = some order)
    (h : s.workOrder c x order arriving turn = .ok t) : Turn x shifts order.orderId most s t := by
  unfold SimState.workOrder at h
  by_cases hexpired : order.expireAt.any (· ≤ x.event.timestamp)
  · rw [if_pos hexpired] at h
    exact .of_still hwithin.nonneg (onPipeline_ended h)
  · rw [if_neg hexpired, bind_ok] at h
    obtain ⟨marketPrice, -, h⟩ := h
    by_cases hblocked : s.venueBlocks x order.assetId marketPrice
    · rw [if_pos hblocked] at h
      exact .of_still hwithin.nonneg (restOrEnd_turn h)
    rw [if_neg hblocked] at h
    by_cases hauction : order.isAuction
    · rw [if_pos hauction] at h
      exact workAuction_turn hwithin h
    · rw [if_neg hauction] at h
      cases htype : order.orderType with
      | market =>
        rw [htype] at h
        exact simulateFill_within hwithin h
      | limit =>
        rw [htype] at h
        exact workLimit_turn hwithin h
      | stop =>
        rw [htype] at h
        exact workStop_turn hwithin hget h
      | stopLimit =>
        rw [htype] at h
        dsimp only at h
        split_ifs at h
        · exact workStop_turn hwithin hget h
        · exact workLimit_turn hwithin h

end

/-- **An order at or past its expiry expires, before anything else.** -/
theorem workOrder_expired {order : Order} {expiry : Instant}
    (hexpiry : order.expireAt = some expiry) (hpast : expiry ≤ x.event.timestamp) :
    s.workOrder c x order arriving turn = s.expire order x.event.timestamp := by
  unfold SimState.workOrder
  rw [if_pos]
  simpa [hexpiry] using hpast

end

end AlphaLab
