/-
  How much of what an event shows a run's own orders fill.

  * `liquidity_per_order` puts them together over an event and an arrival;
  * `own_orders_share_nothing`: the bound is each order's own.
-/
import AlphaLab.Simulation.ExpiryRuns

namespace AlphaLab

open Fallible

/-- In `t` an order is on its terms, and has filled at most `most` more. -/
def SimState.FilledWithin (t : SimState) (o : Order) (most : Decimal) : Prop :=
  ∃ o', t.pipeline.orders.get? o.orderId = some o' ∧ o.SameTerms o' ∧
    o'.filledQuantity ≤ o.filledQuantity + most

section
variable {c : SimulationConfig} {x : EventContext} {most : Decimal} {s t u v : SimState}
  {o : Order}

theorem Turn.filledWithin {shifts : Prop} (h : Turn x shifts o.orderId (some most) u v)
    (ho : s.pipeline.orders.get? o.orderId = some o) (hu : SameFor o.orderId s u)
    (hv : SameFor o.orderId v t) : t.FilledWithin o most := by
  obtain ⟨o', ho', hterms, hfilled⟩ := h.order (hu.order.trans ho)
  exact ⟨o', hv.order.trans ho', hterms, hfilled most rfl⟩

theorem filledWithin_of_get? (hmost : 0 ≤ most) (ho : t.pipeline.orders.get? o.orderId = some o) :
    t.FilledWithin o most :=
  ⟨o, ho, .refl o, by linarith⟩

theorem workOrders_within {orderIds : List String} (hmost : x.FillsWithin c o.side (some most))
    (hnodup : orderIds.Nodup) (ho : s.pipeline.orders.get? o.orderId = some o)
    (h : orderIds.foldlM (fun s orderId => s.workTurn c x orderId) s = .ok t) :
    t.FilledWithin o most := by
  by_cases hmem : o.orderId ∈ orderIds
  · obtain ⟨u, v, hu, hturn, hv⟩ := workOrders_turn hnodup hmem h
    exact (workTurn_turn (hu.order.trans ho) hmost hturn).filledWithin ho hu hv
  · have hothers : SameFor o.orderId s t := foldlM_others SameFor.refl
      (fun _ _ _ _ => SameFor.trans) (fun _ _ _ _ => workTurn_others) hmem h
    exact filledWithin_of_get? (hmost.nonneg most rfl) (hothers.order.trans ho)

theorem uncross_within {assetId : String} {price : Decimal} {ended : Instant}
    (hmost : x.FillsWithin c o.side (some most)) (ho : s.pipeline.orders.get? o.orderId = some o)
    (h : s.uncross c x assetId price ended none = .ok t) : t.FilledWithin o most := by
  have hnodup := workingOrdersFor_nodup s.pipeline.orders assetId
  unfold SimState.uncross at h
  split_ifs at h
  · obtain rfl := pure_ok.mp h
    exact filledWithin_of_get? (hmost.nonneg most rfl) ho
  by_cases hmem : o.orderId ∈ s.pipeline.orders.workingOrdersFor assetId
  · obtain ⟨u, v, hu, hturn, hv⟩ := uncrossOrders_turn hnodup hmem h
    have hcrossed : Turn x True o.orderId (some most) u v :=
      uncrossTurn_turn (hu.order.trans ho) hmost (Or.inl rfl) hturn
    exact hcrossed.filledWithin ho hu hv
  · have hothers : SameFor o.orderId s t := foldlM_others SameFor.refl
      (fun _ _ _ _ => SameFor.trans) (fun _ _ _ _ => uncrossTurn_others) hmem h
    exact filledWithin_of_get? (hmost.nonneg most rfl) (hothers.order.trans ho)

/-- **Each order of an asset fills at most its policy's share** of what an event showed, in
    continuous trading and in an auction read from a print. -/
theorem fillWorkingOrders_within {assetId : String} (hmost : x.FillsWithin c o.side (some most))
    (hprinted : ∀ due, s.auctionAt x assetId = some due → due.1.uncross = none)
    (ho : s.pipeline.orders.get? o.orderId = some o)
    (h : s.fillWorkingOrders c x assetId = .ok t) : t.FilledWithin o most := by
  unfold SimState.fillWorkingOrders at h
  cases hauction : s.auctionAt x assetId with
  | none =>
    rw [hauction] at h
    exact workOrders_within hmost (workingOrdersFor_nodup _ _) ho h
  | some due =>
    obtain ⟨halt, halted⟩ := due
    have huncross : halt.uncross = none := hprinted _ hauction
    rw [hauction] at h
    dsimp only at h
    unfold SimState.reopen at h
    rw [huncross] at h
    dsimp only at h
    unfold SimState.reopenPrinted at h
    dsimp only at h
    split at h
    · obtain rfl := pure_ok.mp h
      exact filledWithin_of_get? (hmost.nonneg most rfl) ho
    · refine uncross_within hmost ?_ h
      exact ho

theorem workEvent_within {o : Order} (hmost : x.FillsWithin c o.side (some most))
    (hprinted : ∀ assetId due, (s.marked x.event).auctionAt x assetId = some due →
      due.1.uncross = none)
    (ho : s.pipeline.orders.get? o.orderId = some o) (h : s.workEvent c x = .ok t) :
    t.FilledWithin o most := by
  obtain ⟨horders, -⟩ := marked_orders (s := s) x.event
  have hmarked : (s.marked x.event).pipeline.orders.get? o.orderId = some o := by rwa [horders]
  unfold SimState.workEvent at h
  dsimp only at h
  split at h
  · obtain rfl := pure_ok.mp h
    exact filledWithin_of_get? (hmost.nonneg most rfl) hmarked
  · split_ifs at h
    · exact fillWorkingOrders_within hmost (hprinted _) hmarked h
    · obtain rfl := pure_ok.mp h
      exact filledWithin_of_get? (hmost.nonneg most rfl) hmarked

/-- **A resting order's turn behind its queue** fills no more than is eligible there. -/
theorem workOrder_queued {turn : QueueTurn} {eligible : Decimal} (hqueued : o.isQueued = true)
    (heligible : turn.eligible = some eligible) (hmost : 0 ≤ most) (hle : eligible ≤ most)
    (h : s.workOrder c x o false (some turn) = .ok t) : Turn x True o.orderId (some most) s t := by
  have hnonneg : ∀ m ∈ some most, 0 ≤ m := by
    intro m hm
    obtain rfl := Option.some.inj hm
    exact hmost
  have hrested : s.workRested c x o (some turn) = .ok t →
      Turn x True o.orderId (some most) s t := by
    intro h
    unfold SimState.workRested at h
    dsimp only at h
    split at h
    · exact .of_still hnonneg (restOrEnd_turn h)
    · refine workResting_turn hnonneg ?_ h
      rintro price - m hm
      obtain rfl := Option.some.inj hm
      exact Or.inr ⟨eligible, heligible, hle⟩
  unfold SimState.workOrder at h
  by_cases hexpired : o.expireAt.any (· ≤ x.event.timestamp)
  · rw [if_pos hexpired] at h
    exact .of_still hnonneg (onPipeline_ended h)
  rw [if_neg hexpired, bind_ok] at h
  obtain ⟨marketPrice, -, h⟩ := h
  by_cases hblocked : s.venueBlocks x o.assetId marketPrice
  · rw [if_pos hblocked] at h
    exact .of_still hnonneg (restOrEnd_turn h)
  have hauction : ¬ o.isAuction = true := by
    simp [Order.isQueued] at hqueued
    simp [hqueued]
  rw [if_neg hblocked, if_neg hauction] at h
  cases htype : o.orderType with
  | market => simp [Order.isQueued, htype] at hqueued
  | stop => simp [Order.isQueued, htype] at hqueued
  | limit =>
    rw [htype] at h
    exact hrested h
  | stopLimit =>
    have htriggered : ¬ o.triggeredAt.isNone = true := by
      simp only [Order.isQueued, htype, Bool.and_eq_true] at hqueued
      simpa [Option.isSome_iff_ne_none] using hqueued.2
    rw [htype] at h
    dsimp only at h
    rw [if_neg htriggered] at h
    exact hrested h

/-- What is ahead of an order in the queue at its limit, as far as the run has seen. -/
def SimState.aheadOf (s : SimState) (o : Order) : Option Decimal :=
  (((s.queueOf o.orderId).bind Prod.snd).filter
    fun position => some position.limitPrice = o.limitPrice).bind (·.ahead)

theorem queueTurn_eq {model : QueueModel} {limit : Decimal}
    (hmodel : s.queue.map (·.model) = some model) (hlimit : o.limitPrice = some limit)
    (hqueued : o.isQueued = true) :
    s.queueTurn x o = some (model.advance ⟨limit, s.aheadOf o⟩ o.side
      x.event.queueObservation) := by
  unfold SimState.queueTurn SimState.aheadOf SimState.queueOf
  cases hqueue : s.queue with
  | none =>
    rw [hqueue] at hmodel
    cases hmodel
  | some book =>
    rw [hqueue] at hmodel
    obtain rfl := Option.some.inj hmodel
    simp only [hlimit, hqueued, if_true, Option.map_some, Option.bind_some, Option.some.injEq]
    cases hposition : book.positions.get? o.orderId with
    | none => rfl
    | some position =>
      by_cases heq : position.limitPrice = limit
      · subst heq
        rw [Option.filter_some, if_pos (by simp)]
        rfl
      · rw [Option.filter_some, if_neg (by simp [heq])]
        rfl

/-- **An order's turn at a print at its limit**, behind a price-time queue, fills no more
    than was printed beyond what was ahead of it. -/
theorem workTurn_print {countUnsignedTrades : Bool} {tick : Tick}
    (hmodel : s.queue.map (·.model) = some (priceTimeQueue countUnsignedTrades))
    (hdata : x.event.data = .tick tick) (hlimit : o.limitPrice = some tick.price)
    (hqueued : o.isQueued = true) (ho : s.pipeline.orders.get? o.orderId = some o)
    (h : s.workTurn c x o.orderId = .ok t) :
    Turn x True o.orderId (some (beyondQueue tick.quantity (s.aheadOf o))) s t := by
  have hprice : tick.price = (⟨tick.price, s.aheadOf o⟩ : QueuePosition).limitPrice := rfl
  obtain ⟨eligible, heligible, hle⟩ := advance_print hdata hprice
  have hturn := queueTurn_eq (x := x) hmodel hlimit hqueued
  refine workTurn_of_worked ho ?_ h
  intro worked hworked
  rw [hturn] at hworked ⊢
  exact workOrder_queued hqueued heligible (beyondQueue_nonneg _ _) hle hworked

/-- **At a print at its limit**, each order resting behind a price-time queue fills at most
    what was printed beyond what is ahead of it. -/
theorem workEvent_print {countUnsignedTrades : Bool} {tick : Tick}
    (hmodel : s.queue.map (·.model) = some (priceTimeQueue countUnsignedTrades))
    (hdata : x.event.data = .tick tick) (hlimit : o.limitPrice = some tick.price)
    (hqueued : o.isQueued = true) (hauction : (s.marked x.event).auctionAt x tick.assetId = none)
    (ho : s.pipeline.orders.get? o.orderId = some o) (h : s.workEvent c x = .ok t) :
    t.FilledWithin o (beyondQueue tick.quantity (s.aheadOf o)) := by
  obtain ⟨horders, -⟩ := marked_orders (s := s) x.event
  have hmarked : (s.marked x.event).pipeline.orders.get? o.orderId = some o := by rwa [horders]
  have hqueue : (s.marked x.event).queue = s.queue := by
    unfold SimState.marked
    cases x.event.marketPrice <;> rfl
  have hahead : (s.marked x.event).aheadOf o = s.aheadOf o := by
    simp only [SimState.aheadOf, SimState.queueOf, hqueue]
  have hmost := beyondQueue_nonneg tick.quantity (s.aheadOf o)
  have hprice : x.event.marketPrice = some (tick.assetId, tick.price) := by
    simp [MarketEvent.marketPrice, hdata]
  unfold SimState.workEvent at h
  rw [hprice] at h
  dsimp only at h
  split_ifs at h
  · unfold SimState.fillWorkingOrders at h
    rw [hauction] at h
    by_cases hmem : o.orderId ∈
        (s.marked x.event).pipeline.orders.workingOrdersFor tick.assetId
    · obtain ⟨u, v, hu, hturn, hv⟩ := workOrders_turn (workingOrdersFor_nodup _ _) hmem h
      have hfound : u.pipeline.orders.get? o.orderId = some o := hu.order.trans hmarked
      -- the queue stands before the turn as the event found it
      have haheadOf : u.aheadOf o = s.aheadOf o := by
        rw [← hahead, SimState.aheadOf, hu.queue]
        rfl
      have hmodelOf : u.queue.map (·.model) = some (priceTimeQueue countUnsignedTrades) := by
        have hsame := congrArg (Option.map Prod.fst) hu.queue
        simp only [SimState.queueOf, Option.map_map] at hsame
        rw [hqueue] at hsame
        exact hsame.trans hmodel
      have hprinted := workTurn_print hmodelOf hdata hlimit hqueued hfound hturn
      rw [haheadOf] at hprinted
      exact hprinted.filledWithin hmarked hu hv
    · have hothers := foldlM_others SameFor.refl (fun _ _ _ _ => SameFor.trans)
        (fun _ _ _ _ => workTurn_others) hmem h
      exact filledWithin_of_get? hmost (hothers.order.trans hmarked)
  · obtain rfl := pure_ok.mp h
    exact filledWithin_of_get? hmost hmarked

/-- **An arrival** fills at most its policy's share, and leaves the other orders. -/
theorem arrive_within {rest : Bool} {request : OrderRequest} {pending : List OrderRequest}
    {expireAt : Option Instant} (hmost : x.FillsWithin c request.side (some most))
    (hpending : s.pending = request :: pending)
    (hexpiry : c.expiryOf request x.event.timestamp = some expireAt)
    (h : s.arrive c x rest = .ok t) :
    t.FilledWithin (request.toOrder expireAt) most ∧
      ∀ k, k ≠ request.orderId → t.pipeline.orders.get? k = s.pipeline.orders.get? k := by
  unfold SimState.arrive at h
  rw [hpending] at h
  dsimp only at h
  rw [hexpiry] at h
  simp only [bind_ok, mapError_ok] at h
  obtain ⟨placed, hplaced, h⟩ := h
  obtain ⟨-, o, hid, horder, horders⟩ := PipelineState.submitAndAccept_ok hplaced
  have hfound : placed.orders.get? o.orderId = some o := by
    rw [horders]
    exact Register.get?_put_self _ _
  have hside : o.side = request.side := by
    rw [horder]
    rfl
  rw [← hid] at h
  have hturn : Turn x False o.orderId (some most)
      { s with pipeline := placed, pending := pending } t :=
    workArrival_turn (hside ▸ hmost) hfound h
  constructor
  · obtain ⟨o', ho', hterms, hfilled⟩ := hturn.order hfound
    refine ⟨o', ?_, ?_, ?_⟩
    · rwa [hid] at ho'
    · rw [horder] at hterms
      exact ⟨hterms.1, hterms.2, hterms.3, hterms.4, hterms.5, hterms.6, hterms.7⟩
    · rw [horder] at hfilled
      exact hfilled most rfl
  · intro k hk
    rw [hturn.beside.orders k (hid ▸ hk)]
    show placed.orders.get? k = _
    have hrequest : k ≠ (request.toOrder expireAt).orderId := hk
    rw [horders]
    show ((s.pipeline.orders.put (request.toOrder expireAt)).put o).get? k = _
    rw [Register.get?_put_of_ne _ (hid ▸ hk), Register.get?_put_of_ne _ hrequest]

end

/-- **What an event shows bounds each of the run's own orders**: under a capped policy one
    fills at most its share of the size shown, resting or arriving, outside an auction the
    venue computes; and behind a price-time queue, at a print at its limit, at most what was
    printed beyond what is ahead of it. -/
theorem liquidity_per_order (c : SimulationConfig) (x : EventContext) (s t : SimState) :
    (∀ rate shown o, x.policy = liquidityCappedFill rate →
        x.event.availableQuantity o.side = some shown →
        (∀ assetId due, (s.marked x.event).auctionAt x assetId = some due →
          due.1.uncross = none) →
        s.pipeline.orders.get? o.orderId = some o → simStep c s (.event x) = .ok t →
        t.FilledWithin o (max 0 (multiply shown rate))) ∧
      (∀ rate shown rest request pending expireAt, x.policy = liquidityCappedFill rate →
        x.event.availableQuantity request.side = some shown →
        s.pending = request :: pending →
        c.expiryOf request x.event.timestamp = some expireAt →
        simStep c s (.arrive x rest) = .ok t →
        t.FilledWithin (request.toOrder expireAt) (max 0 (multiply shown rate)) ∧
          ∀ k, k ≠ request.orderId → t.pipeline.orders.get? k = s.pipeline.orders.get? k) ∧
      ∀ countUnsignedTrades tick o,
        s.queue.map (·.model) = some (priceTimeQueue countUnsignedTrades) →
        x.event.data = .tick tick → o.limitPrice = some tick.price → o.isQueued = true →
        (s.marked x.event).auctionAt x tick.assetId = none →
        s.pipeline.orders.get? o.orderId = some o → simStep c s (.event x) = .ok t →
        t.FilledWithin o (beyondQueue tick.quantity (s.aheadOf o)) := by
  refine ⟨?_, ?_, ?_⟩
  · intro rate shown o hpolicy hshown hprinted ho h
    exact workEvent_within (fillsWithin_capped hpolicy hshown) hprinted ho h
  · intro rate shown rest request pending expireAt hpolicy hshown hpending hexpiry h
    exact arrive_within (fillsWithin_capped hpolicy hshown) hpending hexpiry h
  · intro countUnsignedTrades tick o hmodel hdata hlimit hqueued hauction ho h
    exact workEvent_print hmodel hdata hlimit hqueued hauction ho h

/-! ## What several orders fill -/

/-- A purchase of four at ten, good until cancelled, its order named from `first` on. -/
def restingPurchase (first : ℕ) : AllocationInput :=
  { fourUnits with
    intents := [{
      strategyId := "A"
      instrument := "X"
      target := 4
      terms := { orderType := .limit, limitPrice := some 10, timeInForce := .gtc } }]
    newId := fun n => orderName (first + n) }

def threeShown : EventContext where
  event := ⟨0, .tick { assetId := "X", price := 10, quantity := 3 }⟩
  policy := liquidityCappedFill 1

def oneThrough : EventContext where
  event := ⟨0, .tick { assetId := "X", price := 9, quantity := 1 }⟩
  policy := immediateFill

def filledInAll (s : SimState) : Decimal := (s.pipeline.orders.values.map (·.filledQuantity)).sum

/-- **The bound is each order's own**: two orders take the three that were shown, each for
    itself; and a print of one through the limit of a queued order fills all four of it. -/
theorem own_orders_share_nothing :
    (∃ s t, [.call (.allocate (restingPurchase 0)), .arrive threeShown true,
        .call (.allocate (restingPurchase 1)), .arrive threeShown true].foldlM
          (simStep plainSimulation) printedRun = .ok s ∧
      simStep plainSimulation s (.event threeShown) = .ok t ∧
      threeShown.event.availableQuantity .buy = some 3 ∧ filledInAll s = 0 ∧
      filledInAll t = 6) ∧
    ∃ s t, [.call (.allocate (restingPurchase 0)), .arrive oneThrough true].foldlM
        (simStep plainSimulation)
        { printedRun with queue := some { model := priceTimeQueue } } = .ok s ∧
      simStep plainSimulation s (.event oneThrough) = .ok t ∧ filledInAll s = 0 ∧
      filledInAll t = 4 := by
  constructor
  · obtain ⟨s, hs, hnone, ht⟩ := exists_ok_of (x :=
      [.call (.allocate (restingPurchase 0)), .arrive threeShown true,
        .call (.allocate (restingPurchase 1)), .arrive threeShown true].foldlM
          (simStep plainSimulation) printedRun)
      (fun s => filledInAll s = 0 ∧ (simStep plainSimulation s (.event threeShown)).toOption.any
        (fun t => decide (filledInAll t = 6)) = true) (by decide +kernel)
    obtain ⟨t, ht, hfilled⟩ := exists_ok_of _ ht
    exact ⟨s, t, hs, ht, rfl, hnone, hfilled⟩
  · obtain ⟨s, hs, hnone, ht⟩ := exists_ok_of (x :=
      [.call (.allocate (restingPurchase 0)), .arrive oneThrough true].foldlM
        (simStep plainSimulation)
        { printedRun with queue := some { model := priceTimeQueue } })
      (fun s => filledInAll s = 0 ∧ (simStep plainSimulation s (.event oneThrough)).toOption.any
        (fun t => decide (filledInAll t = 4)) = true) (by decide +kernel)
    obtain ⟨t, ht, hfilled⟩ := exists_ok_of _ ht
    exact ⟨s, t, hs, ht, hnone, hfilled⟩

theorem liquidity_per_order_three :
    ∃ s o t, [.call (.allocate (restingPurchase 0)), .arrive threeShown true].foldlM
        (simStep plainSimulation) printedRun = .ok s ∧
      s.pipeline.orders.get? "O" = some o ∧ simStep plainSimulation s (.event threeShown) = .ok t ∧
      t.FilledWithin o (max 0 (multiply 3 1)) := by
  obtain ⟨s, hs, ho, ht⟩ := exists_ok_of (x :=
    [.call (.allocate (restingPurchase 0)), .arrive threeShown true].foldlM
      (simStep plainSimulation) printedRun)
    (fun s => (s.pipeline.orders.get? "O").any (fun o => decide (o.side = .buy)) = true ∧
      (simStep plainSimulation s (.event threeShown)).toOption.isSome = true)
    (by decide +kernel)
  obtain ⟨o, ho, hside⟩ := (Option.any_eq_true _ _).mp ho
  obtain ⟨t, ht⟩ := Option.isSome_iff_exists.mp ht
  have hevent : simStep plainSimulation s (.event threeShown) = .ok t := by
    cases hstep : simStep plainSimulation s (.event threeShown) with
    | error e => simp [hstep, Except.toOption] at ht
    | ok t' => simpa [hstep, Except.toOption] using ht
  have hid : o.orderId = "O" := Register.key_of_get? ho
  refine ⟨s, o, t, hs, ho, hevent, ?_⟩
  refine (liquidity_per_order plainSimulation threeShown s t).1 1 3 o rfl ?_ ?_ (hid ▸ ho) hevent
  · rw [of_decide_eq_true hside]
    rfl
  · rintro assetId due ⟨⟩

end AlphaLab
