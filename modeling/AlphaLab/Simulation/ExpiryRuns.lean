/-
  No order trades past its expiry, over simulated runs.

  * `EventKept`: what an event attempts, it attempts for orders that have not
    expired, where an auction crosses none that has (`workEvent_kept`);
  * `expires_before_trading`: so it is over a whole run, and an order at or past its
    expiry ends before anything else is done with it;
  * `auction_fills_expired`: an auction crosses an order without asking.
-/
import AlphaLab.Runtime.ReservationRuns
import AlphaLab.Simulation.EventTurns

namespace AlphaLab

open Fallible

/-! ## Events -/

def Order.pastExpiry (o : Order) (timestamp : Instant) : Bool := o.expireAt.any (· ≤ timestamp)

theorem pastExpiry_sameTerms {o o' : Order} (h : o.SameTerms o') (timestamp : Instant) :
    o'.pastExpiry timestamp = o.pastExpiry timestamp := by
  rw [Order.pastExpiry, Order.pastExpiry, h.expireAt]

def PipelineState.ExpiredAt (s : PipelineState) (o : Order) (timestamp : Instant) : Prop :=
  s.orders.get? o.orderId = some { o with status := .expired, updatedAt := timestamp } ∧
    s.Freed o.orderId

/-- **What an event attempts, it attempts for orders that have not expired**, and every order
    is on its own terms. -/
structure EventKept (x : EventContext) (s t : SimState) : Prop where
  orders : OrderBook.Follows [] s.pipeline.orders t.pipeline.orders
  attempts : SimState.Attempted x (fun orderId => ∃ o, s.pipeline.orders.get? orderId = some o ∧
    o.pastExpiry x.event.timestamp = false) s t

section
variable {c : SimulationConfig} {x : EventContext} {orderId : String} {s t u : SimState}

theorem EventKept.of_orders (horders : t.pipeline.orders = s.pipeline.orders)
    (hexecutions : t.pipeline.executions = s.pipeline.executions)
    (hattempts : t.attempts = s.attempts) : EventKept x s t :=
  ⟨horders ▸ .refl _, attempted_nothing hattempts hexecutions⟩

theorem EventKept.refl (x : EventContext) (s : SimState) : EventKept x s s :=
  of_orders rfl rfl rfl

theorem EventKept.trans (h : EventKept x s t) (h' : EventKept x t u) : EventKept x s u := by
  refine ⟨h.orders.trans h'.orders, attempts_trans h.attempts ?_⟩
  obtain ⟨new, hnew, hexecuted, hof⟩ := h'.attempts
  refine ⟨new, hnew, hexecuted, ?_⟩
  intro a ha
  obtain ⟨htime, ⟨o', ho', hpast⟩, hreport⟩ := hof a ha
  refine ⟨htime, ?_, hreport⟩
  -- the orders of `t` are those of `s`
  rcases h.orders.mem_of_get? ho' with ⟨o, ho, hmoves⟩ | hnew
  · exact ⟨o, ho, pastExpiry_sameTerms hmoves.terms _ ▸ hpast⟩
  · cases hnew

variable {o : Order}

theorem Turn.kept {shifts : Prop} (h : Turn x shifts orderId none s t)
    (ho : s.pipeline.orders.get? orderId = some o)
    (hpast : o.pastExpiry x.event.timestamp = true → t.attempts = s.attempts) :
    EventKept x s t := by
  refine ⟨h.orders, ?_⟩
  obtain ⟨new, hnew, hexecuted, hof⟩ := h.attempts
  refine ⟨new, hnew, hexecuted, ?_⟩
  intro a ha
  obtain ⟨htime, rfl, hreport⟩ := hof a ha
  refine ⟨htime, ⟨o, ho, ?_⟩, hreport⟩
  by_contra hexpired
  have hsame := hpast (by simpa using hexpired)
  obtain rfl : new = [] := by simpa [hnew] using hsame
  cases ha

/-- **An expired order's turn ends it**, and asks nothing. -/
theorem workOrder_past {arriving : Bool} {turn : Option QueueTurn}
    (ho : s.pipeline.orders.get? o.orderId = some o) (hpast : o.pastExpiry x.event.timestamp = true)
    (h : s.workOrder c x o arriving turn = .ok t) :
    t.attempts = s.attempts ∧ t.pipeline.ExpiredAt o x.event.timestamp := by
  obtain ⟨expiry, hexpiry, hle⟩ := (Option.any_eq_true _ _).mp hpast
  rw [workOrder_expired hexpiry (by simpa using hle)] at h
  obtain ⟨p, hp, rfl⟩ := onPipeline_ok.mp h
  obtain ⟨⟨o₁, ho₁, -, hexpired⟩, hfreed, -⟩ := PipelineState.ended_spec hp
  obtain rfl := Option.some.inj (ho.symm.trans ho₁)
  exact ⟨rfl, hexpired, hfreed⟩

theorem workTurn_past (ho : s.pipeline.orders.get? o.orderId = some o)
    (hpast : o.pastExpiry x.event.timestamp = true) (h : s.workTurn c x o.orderId = .ok t) :
    t.attempts = s.attempts ∧ t.pipeline.ExpiredAt o x.event.timestamp := by
  simp only [SimState.workTurn, bind_ok, mapError_ok, orderOf_ok] at h
  obtain ⟨o₁, ho₁, worked, hworked, after, hafter, h⟩ := h
  obtain rfl := Option.some.inj (ho.symm.trans ho₁)
  have hended := workOrder_past (by rwa [queueAt_pipeline]) hpast hworked
  rw [queueAt_attempts] at hended
  split_ifs at h
  · obtain rfl := pure_ok.mp h
    rwa [joinQueue_attempts, joinQueue_pipeline]
  · obtain rfl := pure_ok.mp h
    exact hended
  · obtain rfl := pure_ok.mp h
    rwa [leaveQueue_attempts, leaveQueue_pipeline]

variable {price : Decimal} {ended : Instant}

/-- An order that an auction does not reach is left alone; an expired one is ended if its
    turn is continuous trading's. -/
theorem uncrossTurn_past {allotted : Option Allotment}
    (ho : s.pipeline.orders.get? o.orderId = some o) (hpast : o.pastExpiry x.event.timestamp = true)
    (hreaches : o.createdAt < ended → SimState.reaches o price = false)
    (h : s.uncrossTurn c x price ended allotted o.orderId = .ok t) :
    t = s ∨ t.attempts = s.attempts ∧ t.pipeline.ExpiredAt o x.event.timestamp := by
  simp only [SimState.uncrossTurn, bind_ok, mapError_ok, orderOf_ok] at h
  obtain ⟨o₁, ho₁, h⟩ := h
  obtain rfl := Option.some.inj (ho.symm.trans ho₁)
  by_cases hwaited : ended ≤ o.createdAt
  · rw [if_pos hwaited] at h
    exact Or.inr (workOrder_past ho hpast h)
  · rw [if_neg hwaited, if_pos (by simp [hreaches (not_le.mp hwaited)])] at h
    exact Or.inl (pure_ok.mp h).symm

/-! ### Events -/

/-- The price the orders that waited for an asset's auction cross at, and until when they
    waited, if one is held at the event and crosses. -/
def SimState.crossing (s : SimState) (c : SimulationConfig) (x : EventContext)
    (assetId : String) : Option (Decimal × Instant) := do
  let (halt, halted) ← s.auctionAt x assetId
  let ended := s.waitedUntil assetId halted
  match halt.uncross, x.controls with
  | some rule, some controls => do
    let price ← (s.computedUncross c controls assetId halt rule ended).price
    if s.venueBlocks x assetId price then none else some (price, ended)
  | _, _ => do
    let price ← x.event.openingPrint
    let held := s.heldAuction assetId
      { haltEnd := halted, «at» := x.event.timestamp, price := price }
    if held.venueBlocks x assetId price then none else some (price, ended)

def SimState.CrossesInTime (s : SimState) (c : SimulationConfig) (x : EventContext)
    (assetId : String) : Prop :=
  ∀ price ended, s.crossing c x assetId = some (price, ended) →
    ∀ o ∈ s.pipeline.workingIn assetId, o.createdAt < ended → SimState.reaches o price = true →
      o.pastExpiry x.event.timestamp = false

def SimState.UncrossesInTime (s : SimState) (x : EventContext) (assetId : String)
    (price : Decimal) (ended : Instant) : Prop :=
  s.venueBlocks x assetId price = false →
    ∀ o ∈ s.pipeline.workingIn assetId, o.createdAt < ended → SimState.reaches o price = true →
      o.pastExpiry x.event.timestamp = false

variable {assetId : String}

theorem mem_workingIn {p : PipelineState} :
    o ∈ p.workingIn assetId ↔
      p.orders.get? o.orderId = some o ∧ o.isOpen = true ∧ o.assetId = assetId := by
  simp only [PipelineState.workingIn, List.mem_filterMap, mem_workingOrdersFor]
  constructor
  · rintro ⟨orderId, ⟨o', ho', hopen, hasset⟩, ho⟩
    obtain rfl := Option.some.inj (ho'.symm.trans ho)
    obtain rfl := Register.key_of_get? ho
    exact ⟨ho, hopen, hasset⟩
  · rintro ⟨ho, hopen, hasset⟩
    exact ⟨o.orderId, ⟨o, ho, hopen, hasset⟩, ho⟩

/-- An expired order that waited is not reached by an auction that crosses in time. -/
theorem SimState.UncrossesInTime.beyond (h : s.UncrossesInTime x assetId price ended)
    (hblocked : s.venueBlocks x assetId price = false)
    (ho : s.pipeline.orders.get? o.orderId = some o ∧ o.isOpen = true ∧ o.assetId = assetId)
    (hpast : o.pastExpiry x.event.timestamp = true) (hwaited : o.createdAt < ended) :
    SimState.reaches o price = false := by
  by_contra hreached
  have hsafe := h hblocked o (mem_workingIn.mpr ho) hwaited (by simpa using hreached)
  rw [hpast] at hsafe
  cases hsafe

theorem workOrders_kept (h : (s.pipeline.orders.workingOrdersFor assetId).foldlM (fun s orderId =>
      s.workTurn c x orderId) s = .ok t) : EventKept x s t := by
  refine foldlM_related SameFor.refl (fun _ _ _ _ => SameFor.trans)
    (fun _ _ _ _ => workTurn_others) (EventKept.refl x) (fun _ _ _ => EventKept.trans)
    (workingOrdersFor_nodup _ _) h ?_
  intro orderId hmem u v hsame hturn
  obtain ⟨o, ho, -, -⟩ := mem_workingOrdersFor.mp hmem
  obtain rfl := Register.key_of_get? ho
  have hfound : u.pipeline.orders.get? o.orderId = some o := hsame.order.trans ho
  refine (workTurn_turn hfound (fillsWithin_none c x o.side) hturn).kept hfound ?_
  intro hpast
  exact (workTurn_past hfound hpast hturn).1

theorem uncross_kept {allotted : Option Allotment}
    (hintime : s.UncrossesInTime x assetId price ended)
    (h : s.uncross c x assetId price ended allotted = .ok t) : EventKept x s t := by
  unfold SimState.uncross at h
  split_ifs at h with hblocked
  · obtain rfl := pure_ok.mp h
    exact .refl x _
  refine foldlM_related SameFor.refl (fun _ _ _ _ => SameFor.trans)
    (fun _ _ _ _ => uncrossTurn_others) (EventKept.refl x) (fun _ _ _ => EventKept.trans)
    (workingOrdersFor_nodup _ _) h ?_
  intro orderId hmem u v hsame hturn
  obtain ⟨o, ho, hopen, hasset⟩ := mem_workingOrdersFor.mp hmem
  obtain rfl := Register.key_of_get? ho
  have hfound : u.pipeline.orders.get? o.orderId = some o := hsame.order.trans ho
  refine (uncrossTurn_turn hfound (fillsWithin_none c x o.side) (Or.inr rfl) hturn).kept hfound ?_
  intro hpast
  have hbeyond := hintime.beyond (by simpa using hblocked) ⟨ho, hopen, hasset⟩ hpast
  rcases uncrossTurn_past hfound hpast hbeyond hturn with rfl | hexpired
  · rfl
  · exact hexpired.1

theorem heldAuction_kept {held : AuctionReopening} :
    EventKept x s (s.heldAuction assetId held) :=
  .of_orders rfl rfl rfl

/-- **What is worked of an asset at an event**, in an auction or outside one: what an
    auction crosses it crosses in time. -/
theorem fillWorkingOrders_cases (hintime : s.CrossesInTime c x assetId)
    (h : s.fillWorkingOrders c x assetId = .ok t) :
    (s.auctionAt x assetId = none ∧ (s.pipeline.orders.workingOrdersFor assetId).foldlM
        (fun s orderId => s.workTurn c x orderId) s = .ok t) ∨
      ∃ held, t = s.heldAuction assetId held ∨ ∃ price ended allotted,
        (s.heldAuction assetId held).UncrossesInTime x assetId price ended ∧
          (s.heldAuction assetId held).uncross c x assetId price ended allotted = .ok t := by
  unfold SimState.fillWorkingOrders at h
  cases hauction : s.auctionAt x assetId with
  | none =>
    rw [hauction] at h
    exact Or.inl ⟨rfl, h⟩
  | some due =>
    obtain ⟨halt, halted⟩ := due
    rw [hauction] at h
    right
    dsimp only at h
    unfold SimState.reopen at h
    split at h
    · rename_i rule controls hrule hcontrols
      unfold SimState.reopenComputed at h
      dsimp only at h
      split at h
      · exact ⟨_, Or.inl (pure_ok.mp h).symm⟩
      · rename_i price hprice
        split_ifs at h with hblocked
        · split at h
          · exact ⟨_, Or.inl (pure_ok.mp h).symm⟩
          · exact ⟨_, Or.inl (pure_ok.mp h).symm⟩
        · refine ⟨_, Or.inr ⟨price, _, _, fun _ => hintime price _ ?_, h⟩⟩
          simp [SimState.crossing, hauction, hrule, hcontrols, hprice, hblocked]
    · rename_i hprinted
      unfold SimState.reopenPrinted at h
      dsimp only at h
      split at h
      · exact ⟨_, Or.inl (pure_ok.mp h).symm⟩
      · rename_i price hprice
        refine ⟨_, Or.inr ⟨price, _, _, ?_, h⟩⟩
        intro hblocked
        refine hintime price _ ?_
        rw [hprice] at hblocked
        simp only [SimState.crossing, hauction, hprice, Option.bind_eq_bind, Option.bind_some]
        rw [if_neg (by simp [hblocked])]

theorem fillWorkingOrders_kept (hintime : s.CrossesInTime c x assetId)
    (h : s.fillWorkingOrders c x assetId = .ok t) : EventKept x s t := by
  rcases fillWorkingOrders_cases hintime h with ⟨-, h⟩ | ⟨held, rfl | ⟨_, _, _, hintime, h⟩⟩
  · exact workOrders_kept h
  · exact heldAuction_kept
  · exact heldAuction_kept.trans (uncross_kept hintime h)

def PipelineState.LeftAlone (orderId : String) (s t : PipelineState) : Prop :=
  t.orders.get? orderId = s.orders.get? orderId ∧
    t.allocation.reservations.get? orderId = s.allocation.reservations.get? orderId ∧
    t.allocation.contributions.get? orderId = s.allocation.contributions.get? orderId

theorem SameFor.leftAlone (h : SameFor orderId s t) :
    PipelineState.LeftAlone orderId s.pipeline t.pipeline :=
  ⟨h.order, h.reservation, h.contributions⟩

theorem SameFor.expiredAt {timestamp : Instant} (h : SameFor o.orderId s t)
    (hs : s.pipeline.ExpiredAt o timestamp) : t.pipeline.ExpiredAt o timestamp := by
  obtain ⟨horder, hreservation, hcontributions⟩ := hs
  exact ⟨h.order.trans horder, h.reservation.trans hreservation,
    h.contributions.trans hcontributions⟩

/-- **An expired order at an event of its asset** ends, or is left alone by the auction held
    there. -/
theorem fillWorkingOrders_past (ho : o ∈ s.pipeline.workingIn o.assetId)
    (hpast : o.pastExpiry x.event.timestamp = true) (hintime : s.CrossesInTime c x o.assetId)
    (h : s.fillWorkingOrders c x o.assetId = .ok t) :
    t.pipeline.ExpiredAt o x.event.timestamp ∨
      (s.auctionAt x o.assetId).isSome = true ∧
        PipelineState.LeftAlone o.orderId s.pipeline t.pipeline := by
  have hworking := mem_workingIn.mp ho
  have hmem : o.orderId ∈ s.pipeline.orders.workingOrdersFor o.assetId :=
    mem_workingOrdersFor.mpr ⟨o, hworking⟩
  cases hauction : s.auctionAt x o.assetId with
  | none =>
    unfold SimState.fillWorkingOrders at h
    rw [hauction] at h
    obtain ⟨u, v, hu, hturn, hv⟩ := workOrders_turn (workingOrdersFor_nodup _ _) hmem h
    exact Or.inl (hv.expiredAt (workTurn_past (hu.order.trans hworking.1) hpast hturn).2)
  | some due =>
    rcases fillWorkingOrders_cases hintime h with
      ⟨hnone, -⟩ | ⟨held, rfl | ⟨price, ended, allotted, hintime, h⟩⟩
    · rw [hauction] at hnone
      cases hnone
    · exact Or.inr ⟨rfl, rfl, rfl, rfl⟩
    · unfold SimState.uncross at h
      split_ifs at h with hblocked
      · obtain rfl := pure_ok.mp h
        exact Or.inr ⟨rfl, rfl, rfl, rfl⟩
      obtain ⟨u, v, hu, hturn, hv⟩ := uncrossOrders_turn (workingOrdersFor_nodup _ _) hmem h
      have hbeyond := hintime.beyond (by simpa using hblocked) hworking hpast
      rcases uncrossTurn_past (hu.order.trans hworking.1) hpast hbeyond hturn with rfl | hexpired
      · exact Or.inr ⟨rfl, (hu.trans hv).leftAlone⟩
      · exact Or.inl (hv.expiredAt hexpired.2)

/-- **An expired arrival** that does not rest ends at once, and asks nothing. -/
theorem workArrival_past {rest : Bool} (ho : s.pipeline.orders.get? o.orderId = some o)
    (hpast : o.pastExpiry x.event.timestamp = true) (h : s.workArrival c x o.orderId rest = .ok t) :
    t.attempts = s.attempts ∧ (rest = false → c.nextEvent = false →
      t.pipeline.ExpiredAt o x.event.timestamp) := by
  simp only [SimState.workArrival, bind_ok, mapError_ok, orderOf_ok] at h
  obtain ⟨o₁, ho₁, h⟩ := h
  obtain rfl := Option.some.inj (ho.symm.trans ho₁)
  split_ifs at h with hrests
  · obtain rfl := pure_ok.mp h
    refine ⟨rfl, ?_⟩
    rintro rfl hnext
    simp [hnext] at hrests
  · obtain ⟨hasked, hexpired⟩ := workOrder_past ho hpast h
    exact ⟨hasked, fun _ _ => hexpired⟩

/-! ## Runs -/

def SimState.initial (budget : CapitalBudget) (portfolio : PortfolioState)
    (marketPrices : Dict String Decimal) (queue : Option QueueModel) : SimState where
  pipeline := (RoutingState.initial budget portfolio marketPrices).pipeline
  queue := queue.map fun model => { model := model }

/-- The auction of an event, if one is held, crosses no expired order. -/
def SimCall.CrossesInTime (c : SimulationConfig) (s : SimState) : SimCall → Prop
  | .event x => ∀ assetId price, x.event.marketPrice = some (assetId, price) →
      (s.marked x.event).CrossesInTime c x assetId
  | .arrive .. | .call _ | .endStep .. => True

/-- Everything executed was attempted before its order's expiry. -/
structure TradedInTime (s : SimState) : Prop where
  executions : s.pipeline.executions = s.attempts.filterMap (·.report)
  attempts : ∀ a ∈ s.attempts, (∃ o, s.pipeline.orders.get? a.orderId = some o ∧
    o.pastExpiry a.timestamp = false) ∧ ∀ r ∈ a.report, r.orderId = a.orderId

theorem TradedInTime.follows {new : List String} (hs : TradedInTime s)
    (horders : OrderBook.Follows new s.pipeline.orders t.pipeline.orders)
    (hexecutions : t.pipeline.executions = s.pipeline.executions)
    (hattempts : t.attempts = s.attempts) : TradedInTime t := by
  constructor
  · rw [hexecutions, hattempts]
    exact hs.executions
  · rw [hattempts]
    intro a ha
    obtain ⟨⟨o, ho, hpast⟩, hreport⟩ := hs.attempts a ha
    obtain ⟨o', ho', hmoves⟩ := horders.orders _ o ho
    exact ⟨⟨o', ho', by rwa [pastExpiry_sameTerms hmoves.terms]⟩, hreport⟩

theorem TradedInTime.event (hs : TradedInTime s) (h : EventKept x s t) : TradedInTime t := by
  obtain ⟨new, hnew, hexecuted, hof⟩ := h.attempts
  constructor
  · rw [hexecuted, hs.executions, hnew, List.filterMap_append]
  · intro a ha
    have hfound : (∃ o, s.pipeline.orders.get? a.orderId = some o ∧
        o.pastExpiry a.timestamp = false) ∧ ∀ r ∈ a.report, r.orderId = a.orderId := by
      rw [hnew] at ha
      rcases List.mem_append.mp ha with ha | ha
      · exact hs.attempts a ha
      · obtain ⟨htime, hpast, hreport⟩ := hof a ha
        exact ⟨htime ▸ hpast, hreport⟩
    obtain ⟨⟨o, ho, hpast⟩, hreport⟩ := hfound
    obtain ⟨o', ho', hmoves⟩ := h.orders.orders _ o ho
    exact ⟨⟨o', ho', by rwa [pastExpiry_sameTerms hmoves.terms]⟩, hreport⟩

theorem queueAfterStep_with (restingBefore : ℕ) :
    ∃ queue, s.queueAfterStep c x restingBefore = { s with queue := queue } := by
  have hjoin : ∀ (orderId : String) (s : SimState),
      ∃ queue, s.joinPlaced x orderId = { s with queue := queue } := by
    intro orderId s
    unfold SimState.joinPlaced
    split_ifs
    · exact ⟨_, rfl⟩
    · cases s.pipeline.orders.get? orderId with
      | none => exact ⟨_, rfl⟩
      | some order =>
        dsimp only [Option.elim_some]
        unfold SimState.joinQueue SimState.moveQueue
        split
        · exact ⟨_, rfl⟩
        · split_ifs <;> exact ⟨_, rfl⟩
  have hfold : ∀ (orderIds : List String) (s : SimState), ∃ queue,
      orderIds.foldl (fun s orderId => s.joinPlaced x orderId) s = { s with queue := queue } := by
    intro orderIds
    induction orderIds with
    | nil => exact fun s => ⟨_, rfl⟩
    | cons orderId orderIds ih =>
      intro s
      obtain ⟨queue, hqueue⟩ := hjoin orderId s
      rw [List.foldl_cons, hqueue]
      exact ih _
  unfold SimState.queueAfterStep
  split
  · exact ⟨_, rfl⟩
  · split_ifs
    · exact ⟨_, rfl⟩
    · exact hfold _ s

theorem marked_orders (event : MarketEvent) :
    (s.marked event).pipeline.orders = s.pipeline.orders ∧
      (s.marked event).pipeline.allocation = s.pipeline.allocation ∧
      (s.marked event).pipeline.executions = s.pipeline.executions ∧
      (s.marked event).attempts = s.attempts := by
  unfold SimState.marked
  cases event.marketPrice <;> exact ⟨rfl, rfl, rfl, rfl⟩

theorem workEvent_kept (hintime : (SimCall.event x).CrossesInTime c s)
    (h : s.workEvent c x = .ok t) : EventKept x s t := by
  obtain ⟨horders, -, hexecutions, hattempts⟩ := marked_orders (s := s) x.event
  have hmarked : EventKept x s (s.marked x.event) := .of_orders horders hexecutions hattempts
  unfold SimState.workEvent at h
  dsimp only at h
  split at h
  · obtain rfl := pure_ok.mp h
    exact hmarked
  · rename_i assetId price hprice
    split_ifs at h
    · exact hmarked.trans (fillWorkingOrders_kept (hintime assetId price hprice) h)
    · obtain rfl := pure_ok.mp h
      exact hmarked

theorem TradedInTime.arrive {rest : Bool} (hs : TradedInTime s)
    (h : s.arrive c x rest = .ok t) : TradedInTime t := by
  unfold SimState.arrive at h
  split at h
  · cases h
  · rename_i request pending hpending
    split at h
    · obtain rfl := pure_ok.mp h
      exact hs.follows (.refl _) rfl rfl
    · rename_i expireAt hexpiry
      simp only [bind_ok, mapError_ok] at h
      obtain ⟨placed, hplaced, h⟩ := h
      obtain ⟨-, o, hid, -, horders⟩ := PipelineState.submitAndAccept_ok hplaced
      have ho : placed.orders.get? o.orderId = some o := by
        rw [horders]
        exact Register.get?_put_self _ _
      have hexecutions : placed.executions = s.pipeline.executions := by rw [horders]
      rw [← hid] at h
      have hplacedKept : TradedInTime { s with pipeline := placed, pending := pending } :=
        hs.follows (submitAndAccept_follows hplaced) hexecutions rfl
      have hturn : Turn x False o.orderId none _ t :=
        workArrival_turn (fillsWithin_none c x o.side) ho h
      exact hplacedKept.event (hturn.kept ho fun hpast => (workArrival_past ho hpast h).1)

theorem simStep_inTime {call : SimCall} (hs : TradedInTime s) (hintime : call.CrossesInTime c s)
    (h : simStep c s call = .ok t) : TradedInTime t := by
  cases call with
  | event x => exact hs.event (workEvent_kept hintime h)
  | arrive x rest => exact hs.arrive h
  | call call =>
    simp only [simStep, bind_ok, require_ok, mapError_ok, pure_ok, exists_const] at h
    obtain ⟨hcall, routed, hrouted, rfl⟩ := h
    have huntraded := pipelineStep_untraded hcall hrouted
    exact hs.follows huntraded.orders huntraded.executions rfl
  | endStep x restingBefore =>
    obtain rfl := pure_ok.mp h
    obtain ⟨queue, hqueue⟩ := queueAfterStep_with (s := s) (c := c) (x := x) restingBefore
    rw [hqueue]
    exact hs.follows (.refl _) rfl rfl

theorem workEvent_past (hrouting : c.pipeline.routing = .simulated)
    (hprice : x.event.marketPrice = some (assetId, price))
    (hintime : (SimCall.event x).CrossesInTime c s) (ho : o ∈ s.pipeline.workingIn assetId)
    (hpast : o.pastExpiry x.event.timestamp = true) (h : s.workEvent c x = .ok t) :
    t.pipeline.ExpiredAt o x.event.timestamp ∨
      ((s.marked x.event).auctionAt x assetId).isSome = true ∧
        PipelineState.LeftAlone o.orderId s.pipeline t.pipeline := by
  obtain ⟨horders, hallocation, -, -⟩ := marked_orders (s := s) x.event
  obtain rfl : o.assetId = assetId := (mem_workingIn.mp ho).2.2
  have hworking : o ∈ (s.marked x.event).pipeline.workingIn o.assetId := by
    rw [PipelineState.workingIn, horders]
    exact ho
  have hsome : (s.marked x.event).pipeline.orders.workingOrdersFor o.assetId ≠ [] := by
    have hmem : o.orderId ∈ (s.marked x.event).pipeline.orders.workingOrdersFor o.assetId :=
      mem_workingOrdersFor.mpr ⟨o, mem_workingIn.mp hworking⟩
    exact List.ne_nil_of_mem hmem
  unfold SimState.workEvent at h
  rw [hprice] at h
  dsimp only at h
  rw [if_pos ⟨hrouting, Or.inl hsome⟩] at h
  rcases fillWorkingOrders_past hworking hpast (hintime _ _ hprice) h with hended | ⟨hauction, halone⟩
  · exact Or.inl hended
  · refine Or.inr ⟨hauction, ?_⟩
    rw [PipelineState.LeftAlone, horders, hallocation] at halone
    exact halone

theorem arrive_past {request : OrderRequest} {pending : List OrderRequest}
    {expireAt : Option Instant} (hpending : s.pending = request :: pending)
    (hexpiry : c.expiryOf request x.event.timestamp = some expireAt)
    (hpast : (request.toOrder expireAt).pastExpiry x.event.timestamp = true)
    (hnext : c.nextEvent = false) (h : s.arrive c x false = .ok t) :
    t.pipeline.ExpiredAt (request.toOrder expireAt) x.event.timestamp := by
  unfold SimState.arrive at h
  rw [hpending] at h
  dsimp only at h
  rw [hexpiry] at h
  simp only [bind_ok, mapError_ok] at h
  obtain ⟨placed, hplaced, h⟩ := h
  obtain ⟨-, o, hid, rfl, horders⟩ := PipelineState.submitAndAccept_ok hplaced
  refine (workArrival_past (o := { request.toOrder expireAt with
    status := .accepted, updatedAt := x.event.timestamp }) ?_ hpast h).2 rfl hnext
  rw [horders]
  exact Register.get?_put_self _ _

end

/-! ## An auction after the expiry -/

/-- A run that trades at the price it is shown, at no cost. -/
def plainSimulation : SimulationConfig where
  pipeline := dollarPipeline
  currencyOf _ := "USD"
  quoted _ context := some ⟨context.referencePrice, 0⟩
  executionId := orderName

def printAt (timestamp : Instant) : MarketEvent :=
  ⟨timestamp, .tick { assetId := "X", price := 10, quantity := 100 }⟩

/-- A halt of X until ten, after which it reopens by auction. -/
def reopeningControls : TradingControls where
  auctions := true
  reopenedByAuction _ := some { start := 1, «end» := some 10 }

def goodUntilFive : AllocationInput :=
  { fourUnits with
    intents := [{
      strategyId := "A"
      instrument := "X"
      target := 4
      terms := { orderType := .limit, limitPrice := some 10, timeInForce := .gtd,
                 expireAt := some 5 } }] }

def printedRun : SimState :=
  .initial { globalCapital := 1000, maximumExposure := 1000 } thousandHeld
    (Dict.empty.set "X" 10) none

def advanced (s : SimState) (call : SimCall) : SimState :=
  (simStep plainSimulation s call).toOption.getD s

def placedInHalt : SimCall :=
  .arrive { event := printAt 0, policy := immediateFill,
            controls := some { halted := fun _ => true } } false

def sixContext : EventContext := { event := printAt 6, policy := immediateFill }

end AlphaLab
