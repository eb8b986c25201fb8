/-
  The turns of the orders an event works.

  * `workTurn_turn`, `uncrossTurn_turn`: an order's turn moves that order alone,
    behind its queue or in an auction;
  * `SameFor`: what concerns one order is as it was, so that in `workEvent` each
    order finds itself as the event found it (`workOrders_turn`).
-/
import AlphaLab.Simulation.Turns

namespace AlphaLab

open Fallible

section
variable {c : SimulationConfig} {x : EventContext} {orderId : String} {most : Option Decimal}
  {s t u : SimState}

/-! ## Queue positions -/

theorem moveQueue_turn {move : QueueBook → QueueBook}
    (hmove : ∀ book k, k ≠ orderId → (move book).model = book.model ∧
      (move book).positions.get? k = book.positions.get? k) :
    Turn x True orderId (some 0) s (s.moveQueue move) := by
  have hstill : Turn x True orderId (some 0) s s := .refl fun m hm => (Option.some.inj hm).le
  refine ⟨hstill.beside, hstill.orders, hstill.filled, hstill.attempts, rfl, rfl, ?_⟩
  intro k hk
  unfold SimState.queueOf SimState.moveQueue
  cases s.queue with
  | none => rfl
  | some book =>
    obtain ⟨hmodel, hposition⟩ := hmove book k fun heq => hk heq trivial
    simp [hmodel, hposition]

variable {order : Order}

theorem placed_turn (position : QueueBook → QueuePosition) :
    Turn x True order.orderId (some 0) s
      (s.moveQueue fun book => book.placed order.orderId (position book)) :=
  moveQueue_turn fun _ _ hk => ⟨rfl, Dict.get?_set_of_ne _ _ hk⟩

theorem leaveQueue_turn : Turn x True order.orderId (some 0) s (s.leaveQueue order) := by
  unfold SimState.leaveQueue
  split_ifs
  · exact .refl fun m hm => (Option.some.inj hm).le
  · refine moveQueue_turn ?_
    intro book k hk
    refine ⟨rfl, ?_⟩
    rw [QueueBook.without, Dict.get?_delete, if_neg hk]

theorem joinQueue_turn : Turn x True order.orderId (some 0) s (s.joinQueue x order) := by
  unfold SimState.joinQueue
  split
  · exact .refl fun m hm => (Option.some.inj hm).le
  · split_ifs
    · exact placed_turn _
    · exact .refl fun m hm => (Option.some.inj hm).le

variable {turn : Option QueueTurn}

theorem queueAt_turn : Turn x True order.orderId (some 0) s (s.queueAt order turn) := by
  cases turn with
  | none => exact .refl fun m hm => (Option.some.inj hm).le
  | some turn => exact placed_turn fun _ => turn.position

@[simp] theorem queueAt_pipeline : (s.queueAt order turn).pipeline = s.pipeline := by
  cases turn <;> rfl

@[simp] theorem queueAt_attempts : (s.queueAt order turn).attempts = s.attempts := by
  cases turn <;> rfl

@[simp] theorem leaveQueue_pipeline : (s.leaveQueue order).pipeline = s.pipeline := by
  unfold SimState.leaveQueue
  split_ifs <;> rfl

@[simp] theorem leaveQueue_attempts : (s.leaveQueue order).attempts = s.attempts := by
  unfold SimState.leaveQueue
  split_ifs <;> rfl

@[simp] theorem joinQueue_attempts : (s.joinQueue x order).attempts = s.attempts := by
  unfold SimState.joinQueue
  split
  · rfl
  · split_ifs <;> rfl

@[simp] theorem joinQueue_pipeline : (s.joinQueue x order).pipeline = s.pipeline := by
  unfold SimState.joinQueue
  split
  · rfl
  · split_ifs <;> rfl

theorem orderOf_ok {p : PipelineState} :
    p.orderOf orderId = .ok order ↔ p.orders.get? orderId = some order := by
  simp only [PipelineState.orderOf, mapError_ok, OrderBook.find, orRefuse_ok]

theorem workTurn_of_worked (ho : s.pipeline.orders.get? order.orderId = some order) (hworks : ∀
      worked, (s.queueAt order (s.queueTurn x order)).workOrder c x order false (s.queueTurn x
      order) = .ok worked → Turn x True order.orderId most (s.queueAt order (s.queueTurn x order))
      worked) (h : s.workTurn c x order.orderId = .ok t) : Turn x True order.orderId most s t := by
  simp only [SimState.workTurn, bind_ok, mapError_ok, orderOf_ok] at h
  obtain ⟨order', horder, worked, hworked, after, hafter, h⟩ := h
  obtain rfl := Option.some.inj (ho.symm.trans horder)
  have hturn : Turn x True order.orderId most s worked := queueAt_turn.still_trans (hworks worked hworked)
  have hid : after.orderId = order.orderId := Register.key_of_get? hafter
  refine hturn.trans_still ?_
  rw [← hid]
  split_ifs at h
  · obtain rfl := pure_ok.mp h
    exact joinQueue_turn
  · obtain rfl := pure_ok.mp h
    exact .refl fun m hm => (Option.some.inj hm).le
  · obtain rfl := pure_ok.mp h
    exact leaveQueue_turn

/-- **An order's turn behind its queue.** -/
theorem workTurn_turn (ho : s.pipeline.orders.get? order.orderId = some order)
    (hwithin : x.FillsWithin c order.side most) (h : s.workTurn c x order.orderId = .ok t) :
    Turn x True order.orderId most s t := by
  refine workTurn_of_worked ho ?_ h
  intro worked hworked
  refine workOrder_turn hwithin ?_ hworked
  rwa [queueAt_pipeline]

variable {price : Decimal} {allotted : Option Allotment}

theorem crossOrder_turn (hwithin : x.FillsWithin c order.side most)
    (hallotted : allotted = none ∨ most = none) (h : s.crossOrder c x order price allotted = .ok t) :
    Turn x True order.orderId most s t := by
  unfold SimState.crossOrder at h
  cases allotted with
  | none => exact workResting_within hwithin h
  | some allotted =>
    obtain rfl : most = none := by
      rcases hallotted with hnone | hnone
      · cases hnone
      · exact hnone
    dsimp only at h
    split_ifs at h
    · exact .of_still (by rintro m ⟨⟩) (restOrEnd_turn h)
    · refine workResting_turn ?_ ?_ h
      · rintro m ⟨⟩
      · rintro price - m ⟨⟩
    · refine workResting_turn ?_ ?_ h
      · rintro m ⟨⟩
      · rintro price - m ⟨⟩

variable {ended : Instant}

theorem uncrossTurn_turn (ho : s.pipeline.orders.get? order.orderId = some order)
    (hwithin : x.FillsWithin c order.side most) (hallotted : allotted = none ∨ most = none)
    (h : s.uncrossTurn c x price ended allotted order.orderId = .ok t) :
    Turn x True order.orderId most s t := by
  simp only [SimState.uncrossTurn, bind_ok, mapError_ok, orderOf_ok] at h
  obtain ⟨order', horder, h⟩ := h
  obtain rfl := Option.some.inj (ho.symm.trans horder)
  split_ifs at h
  · exact workOrder_turn hwithin ho h
  · simp only [bind_ok, mapError_ok, orderOf_ok, pure_ok] at h
    obtain ⟨crossed, hcrossed, after, hafter, rfl⟩ := h
    have hid : after.orderId = order.orderId := Register.key_of_get? hafter
    have hcross := crossOrder_turn hwithin hallotted hcrossed
    refine hcross.trans_still ?_
    rw [← hid]
    exact leaveQueue_turn
  · obtain rfl := pure_ok.mp h
    exact .refl hwithin.nonneg

/-- **An order's turn as it arrives**: it joins no queue. -/
theorem workArrival_turn {shifts : Prop} {rest : Bool} (hwithin : x.FillsWithin c order.side most)
    (hget : s.pipeline.orders.get? order.orderId = some order)
    (h : s.workArrival c x order.orderId rest = .ok t) : Turn x shifts order.orderId most s t := by
  simp only [SimState.workArrival, bind_ok, mapError_ok, orderOf_ok] at h
  obtain ⟨order', horder, h⟩ := h
  obtain rfl := Option.some.inj (hget.symm.trans horder)
  split_ifs at h
  · obtain rfl := pure_ok.mp h
    exact .refl hwithin.nonneg
  · exact workOrder_turn hwithin hget h

/-! ## What concerns one order -/

/-- What concerns one order is in `t` as it is in `s`. -/
structure SameFor (orderId : String) (s t : SimState) : Prop where
  order : t.pipeline.orders.get? orderId = s.pipeline.orders.get? orderId
  reservation : t.pipeline.allocation.reservations.get? orderId =
    s.pipeline.allocation.reservations.get? orderId
  contributions : t.pipeline.allocation.contributions.get? orderId =
    s.pipeline.allocation.contributions.get? orderId
  queue : t.queueOf orderId = s.queueOf orderId
  reopened : t.reopened = s.reopened
  prices : t.pipeline.marketPrices = s.pipeline.marketPrices

theorem SameFor.refl (orderId : String) (s : SimState) : SameFor orderId s s :=
  ⟨rfl, rfl, rfl, rfl, rfl, rfl⟩

theorem SameFor.trans (h : SameFor orderId s t) (h' : SameFor orderId t u) :
    SameFor orderId s u :=
  ⟨h'.1.trans h.1, h'.2.trans h.2, h'.3.trans h.3, h'.4.trans h.4, h'.5.trans h.5,
    h'.6.trans h.6⟩

variable {k : String}

theorem Turn.sameFor {shifts : Prop} (h : Turn x shifts orderId most s t) (hk : k ≠ orderId) :
    SameFor k s t :=
  ⟨h.beside.orders k hk, h.beside.reservations k hk, h.beside.contributions k hk, h.queue k (absurd · hk),
    h.reopened, h.beside.marketPrices⟩

theorem workTurn_finds (h : s.workTurn c x orderId = .ok t) :
    ∃ order, s.pipeline.orders.get? orderId = some order := by
  simp only [SimState.workTurn, bind_ok, mapError_ok, orderOf_ok] at h
  obtain ⟨order, ho, -⟩ := h
  exact ⟨order, ho⟩

theorem uncrossTurn_finds (h : s.uncrossTurn c x price ended allotted orderId = .ok t) :
    ∃ order, s.pipeline.orders.get? orderId = some order := by
  simp only [SimState.uncrossTurn, bind_ok, mapError_ok, orderOf_ok] at h
  obtain ⟨order, ho, -⟩ := h
  exact ⟨order, ho⟩

theorem workTurn_others {j k : String} (hk : k ≠ j) (h : s.workTurn c x j = .ok t) :
    SameFor k s t := by
  obtain ⟨order, ho⟩ := workTurn_finds h
  obtain rfl := Register.key_of_get? ho
  exact (workTurn_turn ho (fillsWithin_none c x order.side) h).sameFor hk

theorem uncrossTurn_others {j k : String} (hk : k ≠ j)
    (h : s.uncrossTurn c x price ended allotted j = .ok t) : SameFor k s t := by
  obtain ⟨order, ho⟩ := uncrossTurn_finds h
  obtain rfl := Register.key_of_get? ho
  exact (uncrossTurn_turn ho (fillsWithin_none c x order.side) (Or.inr rfl) h).sameFor hk

/-- **An order that works in an asset has its turn**, and finds itself as the event found
    it. -/
theorem workOrders_turn {orderIds : List String} (hnodup : orderIds.Nodup)
    (hmem : orderId ∈ orderIds)
    (h : orderIds.foldlM (fun s orderId => s.workTurn c x orderId) s = .ok t) :
    ∃ u v, SameFor orderId s u ∧ u.workTurn c x orderId = .ok v ∧ SameFor orderId v t :=
  foldlM_turn SameFor.refl (fun _ _ _ _ => SameFor.trans) (fun _ _ _ _ => workTurn_others)
    hnodup hmem h

theorem uncrossOrders_turn {orderIds : List String} (hnodup : orderIds.Nodup)
    (hmem : orderId ∈ orderIds) (h : orderIds.foldlM (fun s orderId => s.uncrossTurn c x price ended
      allotted orderId) s = .ok t) :
    ∃ u v, SameFor orderId s u ∧ u.uncrossTurn c x price ended allotted orderId = .ok v ∧
      SameFor orderId v t :=
  foldlM_turn SameFor.refl (fun _ _ _ _ => SameFor.trans) (fun _ _ _ _ => uncrossTurn_others)
    hnodup hmem h

/-- **What every turn of an event keeps, the event keeps**: in continuous trading, and in an
    auction. -/
theorem workEvent_invariant {P : SimState → Prop} (hmarked : P (s.marked x.event))
    (hheld : ∀ u assetId held, P u → P (u.heldAuction assetId held))
    (hworked : ∀ u v k, P u → u.workTurn c x k = .ok v → P v)
    (hcrossed : ∀ u v k price ended allotted, P u →
      u.uncrossTurn c x price ended allotted k = .ok v → P v)
    (h : s.workEvent c x = .ok t) : P t := by
  have huncross : ∀ {u v : SimState} {assetId : String} {price : Decimal} {ended : Instant}
      {allotted : Option Allotment}, P u → u.uncross c x assetId price ended allotted = .ok v →
      P v := by
    intro u v assetId price ended allotted hu h
    unfold SimState.uncross at h
    split_ifs at h
    · obtain rfl := pure_ok.mp h
      exact hu
    · exact foldlM_invariant P h hu fun k _ u v hturn hu => hcrossed u v k _ _ _ hu hturn
  have hreopen : ∀ {u v : SimState} {assetId : String} {halt : TradingHalt} {halted : Instant},
      P u → u.reopen c x assetId halt halted = .ok v → P v := by
    intro u v assetId halt halted hu h
    unfold SimState.reopen at h
    split at h
    · unfold SimState.reopenComputed at h
      dsimp only at h
      split at h
      · obtain rfl := pure_ok.mp h
        exact hheld _ _ _ hu
      · split_ifs at h
        · split at h
          · obtain rfl := pure_ok.mp h
            exact hheld _ _ _ hu
          · obtain rfl := pure_ok.mp h
            exact hheld _ _ _ hu
        · exact huncross (hheld _ _ _ hu) h
    · unfold SimState.reopenPrinted at h
      dsimp only at h
      split at h
      · obtain rfl := pure_ok.mp h
        exact hheld _ _ _ hu
      · exact huncross (hheld _ _ _ hu) h
  unfold SimState.workEvent at h
  dsimp only at h
  split at h
  · obtain rfl := pure_ok.mp h
    exact hmarked
  · split_ifs at h
    · unfold SimState.fillWorkingOrders at h
      split at h
      · exact hreopen hmarked h
      · exact foldlM_invariant P h hmarked fun k _ u v hturn hu => hworked u v k hu hturn
    · obtain rfl := pure_ok.mp h
      exact hmarked

end

end AlphaLab
