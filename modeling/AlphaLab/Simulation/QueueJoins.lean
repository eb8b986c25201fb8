/-
  Which of a step's orders join their queue when it ends.

  * `QueueSound`: in a simulated run only the book's orders have a place in the queue, and
    every limit order has a limit;
  * `placed_orders_join_iff`: all that a step placed join, if and only if the first of it, as
    many orders as the step took away, are not queued.
-/
import AlphaLab.Simulation.LiquidityRuns

namespace AlphaLab

open Fallible

/-! ## What works after a step -/

section
variable {new : List String} {book book' : OrderBook}

theorem workingOrdersFor_eq_filter (book : OrderBook) (assetId : String) :
    book.workingOrdersFor assetId =
      (book.values.map (·.orderId)).filter (· ∈ book.workingOrdersFor assetId) := by
  rw [List.filter_map]
  refine congrArg (List.map _) (List.filter_congr fun o ho => ?_)
  have hget : book.get? o.orderId = some o := Register.mem_values.mp ho
  rw [Bool.eq_iff_iff]
  simp only [Bool.and_eq_true, decide_eq_true_eq, Function.comp_apply, mem_workingOrdersFor]
  constructor
  · rintro ⟨hopen, hasset⟩
    exact ⟨o, hget, hopen, hasset⟩
  · rintro ⟨o', ho', hopen, hasset⟩
    obtain rfl := Option.some.inj (hget.symm.trans ho')
    exact ⟨hopen, hasset⟩

/-- **What works in an asset once orders moved and others were placed**: what still does of
    what did, and then of the new. -/
theorem workingOrdersFor_follows (h : OrderBook.Follows new book book') (assetId : String) :
    book'.workingOrdersFor assetId =
      (book.workingOrdersFor assetId).filter (· ∈ book'.workingOrdersFor assetId) ++
        new.filter (· ∈ book'.workingOrdersFor assetId) := by
  have hworking := workingOrdersFor_eq_filter book' assetId
  rw [h.ids, List.filter_append] at hworking
  refine hworking.trans (congrArg (· ++ _) ?_)
  rw [workingOrdersFor_eq_filter book assetId, List.filter_filter]
  refine List.filter_congr fun k hk => ?_
  rw [Bool.eq_iff_iff]
  simp only [Bool.and_eq_true, decide_eq_true_eq]
  refine ⟨fun hstill => ⟨hstill, ?_⟩, And.left⟩
  -- an order of the book that works now worked before
  obtain ⟨o, ho, rfl⟩ := List.mem_map.mp hk
  obtain ⟨o', ho', hopen, hasset⟩ := mem_workingOrdersFor.mp hstill
  have hget : book.get? o.orderId = some o := Register.mem_values.mp ho
  obtain ⟨o₁, ho₁, hmoves⟩ := h.orders _ o hget
  obtain rfl := Option.some.inj (ho₁.symm.trans ho')
  exact mem_workingOrdersFor.mpr ⟨o, hget, hmoves.stays hopen, hmoves.terms.assetId ▸ hasset⟩

theorem OrderBook.Follows.new_absent (h : OrderBook.Follows new book book') {k : String}
    (hk : k ∈ new) : book.get? k = none := by
  have hnodup := book'.nodup_map_values
  rw [h.ids] at hnodup
  rw [Option.eq_none_iff_forall_not_mem]
  intro o ho
  obtain rfl := Register.key_of_get? ho
  exact (List.nodup_append.mp hnodup).2.2 _
    (List.mem_map_of_mem (Register.mem_values.mpr ho)) _ hk rfl

end

namespace SimState

/-- What was placed in an asset since `s` and works in `t`, as it was placed. -/
def placedSince (s t : SimState) (assetId : String) : List String :=
  (t.pipeline.orders.workingOrdersFor assetId).filter fun k =>
    (s.pipeline.orders.get? k).isNone

/-- What worked in an asset in `s` and does not work in `t`. -/
def goneSince (s t : SimState) (assetId : String) : List String :=
  (s.pipeline.orders.workingOrdersFor assetId).filter
    (· ∉ t.pipeline.orders.workingOrdersFor assetId)

variable {s t : SimState} {new : List String}

/-- **What the end of a step goes through** is what was placed, without the first of it: as
    many orders as have gone. -/
theorem drop_working (h : OrderBook.Follows new s.pipeline.orders t.pipeline.orders)
    (assetId : String) :
    (t.pipeline.orders.workingOrdersFor assetId).drop (s.workingCount assetId) =
      (s.placedSince t assetId).drop (s.goneSince t assetId).length := by
  have hworking := workingOrdersFor_follows h assetId
  have hplaced : s.placedSince t assetId =
      new.filter (· ∈ t.pipeline.orders.workingOrdersFor assetId) := by
    unfold placedSince
    conv_lhs => rw [hworking]
    rw [List.filter_append, List.filter_eq_nil_iff.mpr, List.nil_append, List.filter_eq_self]
    · intro k hk
      rw [h.new_absent (List.mem_of_mem_filter hk)]
      rfl
    · intro k hk
      obtain ⟨o, ho, -⟩ := mem_workingOrdersFor.mp (List.mem_of_mem_filter hk)
      simp [ho]
  have hcount : s.workingCount assetId =
      ((s.pipeline.orders.workingOrdersFor assetId).filter
        (· ∈ t.pipeline.orders.workingOrdersFor assetId)).length +
        (s.goneSince t assetId).length := by
    rw [workingCount, goneSince, List.length_eq_length_filter_add
      (· ∈ t.pipeline.orders.workingOrdersFor assetId)]
    simp
  conv_lhs => rw [hworking]
  rw [hplaced, hcount, List.drop_append]
  simp

end SimState

section
variable {c : SimulationConfig} {x : EventContext} {s t u : SimState}

def SimState.joinedAt (s : SimState) (x : EventContext) (orderId : String) :
    Option QueuePosition := do
  let book ← s.queue
  let order ← s.pipeline.orders.get? orderId
  let limit ← order.limitPrice
  if order.isQueued then some (book.model.join order.side limit x.event.queueObservation)
  else none

theorem joinPlaced_eq (s : SimState) (orderId : String) :
    s.joinPlaced x orderId =
      if (s.positionOf orderId).isSome then s
      else (s.joinedAt x orderId).elim s fun position =>
        s.moveQueue (·.placed orderId position) := by
  unfold SimState.joinPlaced
  split_ifs
  · rfl
  · cases ho : s.pipeline.orders.get? orderId with
    | none => cases hqueue : s.queue <;> simp [SimState.joinedAt, ho, hqueue]
    | some order =>
      obtain rfl := Register.key_of_get? ho
      rw [Option.elim_some, SimState.joinQueue]
      cases hlimit : order.limitPrice with
      | none => cases hqueue : s.queue <;> simp [SimState.joinedAt, ho, hlimit, hqueue]
      | some limit =>
        cases hqueue : s.queue with
        | none =>
          have hsame : { s with queue := none } = s := by rw [← hqueue]
          simp [SimState.joinedAt, SimState.moveQueue, hqueue, hsame]
        | some book =>
          cases hqueued : order.isQueued <;>
            simp [SimState.joinedAt, SimState.moveQueue, ho, hlimit, hqueue, hqueued]

/-- **One order joins** if it is offered a place and has none; nothing else moves. -/
theorem joinPlaced_spec (s : SimState) (orderId : String) :
    (s.joinPlaced x orderId).joinedAt x = s.joinedAt x ∧
      ∀ k, (s.joinPlaced x orderId).positionOf k =
        (s.positionOf k).or (if k = orderId then s.joinedAt x k else none) := by
  rw [joinPlaced_eq]
  split_ifs with hstands
  · refine ⟨rfl, ?_⟩
    intro k
    split_ifs with hk
    · subst hk
      rw [Option.or_of_isSome hstands]
    · rw [Option.or_none]
  · cases hoffer : s.joinedAt x orderId with
    | none =>
      refine ⟨rfl, ?_⟩
      intro k
      split_ifs with hk
      · rw [hk, Option.elim_none, hoffer, Option.or_none]
      · rw [Option.elim_none, Option.or_none]
    | some position =>
      obtain ⟨book, hqueue, -⟩ := Option.bind_eq_some_iff.mp hoffer
      have hnone : book.positions.get? orderId = none := by
        simpa [SimState.positionOf, hqueue] using hstands
      constructor
      · funext k
        simp [SimState.joinedAt, SimState.moveQueue, hqueue, QueueBook.placed]
      · intro k
        simp only [Option.elim_some, SimState.positionOf, SimState.moveQueue, hqueue,
          Option.map_some, Option.bind_some, QueueBook.placed, Dict.get?_set]
        split_ifs with hk
        · rw [hk, hnone, hoffer, Option.none_or]
        · rw [Option.or_none]

theorem joins_positionOf (orderIds : List String) (s : SimState) (k : String) :
    (orderIds.foldl (fun s orderId => s.joinPlaced x orderId) s).positionOf k =
      (s.positionOf k).or (if k ∈ orderIds then s.joinedAt x k else none) := by
  induction orderIds generalizing s with
  | nil => simp
  | cons orderId orderIds ih =>
    obtain ⟨hoffers, hpositions⟩ := joinPlaced_spec (x := x) s orderId
    rw [List.foldl_cons, ih, hoffers, hpositions, Option.or_assoc]
    by_cases hk : k = orderId
    · subst hk
      by_cases hmem : k ∈ orderIds <;> simp [hmem]
    · simp [hk]

/-- **What the end of a step makes of the queue**: each order keeps its place, and what the
    step placed, without the first of it, takes the place it is offered. -/
theorem queueAfterStep_positionOf {new : List String} {assetId : String} {price : Decimal}
    (hrouting : c.pipeline.routing = .simulated)
    (hprice : x.event.marketPrice = some (assetId, price))
    (horders : OrderBook.Follows new s.pipeline.orders t.pipeline.orders) (k : String) :
    (t.queueAfterStep c x (s.workingCount assetId)).positionOf k = (t.positionOf k).or
      (if k ∈ (s.placedSince t assetId).drop (s.goneSince t assetId).length
        then t.joinedAt x k else none) := by
  rw [← SimState.drop_working horders]
  unfold SimState.queueAfterStep
  rw [hprice]
  dsimp only
  split_ifs with hsame hmem hmem
  · have hcount := hsame.resolve_left (not_not_intro hrouting)
    rw [← hcount, SimState.workingCount, List.drop_length] at hmem
    cases hmem
  · rw [Option.or_none]
  · rw [joins_positionOf, if_pos hmem]
  · rw [joins_positionOf, if_neg hmem]

/-! ## Runs -/

def Order.Limited (o : Order) : Prop :=
  o.orderType = .limit ∨ o.orderType = .stopLimit → o.limitPrice.isSome = true

/-- **Only orders of the book have a place in the queue**, whose model is the run's, and every
    limit order has a limit. -/
structure QueueSound (model : QueueModel) (s : SimState) : Prop where
  governed : s.queue.map (·.model) = some model
  known : ∀ k, (s.positionOf k).isSome → (s.pipeline.orders.get? k).isSome
  limited : ∀ k o, s.pipeline.orders.get? k = some o → o.Limited

theorem positionOf_eq (s : SimState) (k : String) : s.positionOf k = (s.queueOf k).bind Prod.snd := by
  cases hqueue : s.queue <;> simp [SimState.positionOf, SimState.queueOf, hqueue]

theorem model_eq (s : SimState) (k : String) :
    s.queue.map (·.model) = (s.queueOf k).map Prod.fst := by
  cases hqueue : s.queue <;> simp [SimState.queueOf, hqueue]

namespace QueueSound

variable {model : QueueModel} {orderId : String} {most : Option Decimal}

theorem limited_follows {new : List String} {book book' : OrderBook}
    (h : OrderBook.Follows new book book') (hbook : ∀ k o, book.get? k = some o → o.Limited)
    (hnew : ∀ k ∈ new, ∀ o, book'.get? k = some o → o.Limited) :
    ∀ k o, book'.get? k = some o → o.Limited := by
  intro k o' ho' htype
  rcases h.mem_of_get? ho' with ⟨o, ho, hmoves⟩ | hk
  · rw [hmoves.limit]
    exact hbook k o ho (hmoves.terms.orderType ▸ htype)
  · exact hnew k hk o' ho' htype

theorem follows {new : List String} (hs : QueueSound model s)
    (horders : OrderBook.Follows new s.pipeline.orders t.pipeline.orders)
    (hqueue : ∀ k, t.queueOf k = s.queueOf k)
    (hnew : ∀ k ∈ new, ∀ o, t.pipeline.orders.get? k = some o → o.Limited) :
    QueueSound model t := by
  refine ⟨?_, ?_, limited_follows horders hs.limited hnew⟩
  · rw [model_eq t "", hqueue, ← model_eq]
    exact hs.governed
  · intro k hk
    rw [positionOf_eq, hqueue, ← positionOf_eq] at hk
    obtain ⟨o, ho⟩ := Option.isSome_iff_exists.mp (hs.known k hk)
    obtain ⟨o', ho', -⟩ := horders.orders k o ho
    exact Option.isSome_iff_exists.mpr ⟨o', ho'⟩

theorem turn {shifts : Prop} {o : Order} (hs : QueueSound model s)
    (ho : s.pipeline.orders.get? orderId = some o) (h : Turn x shifts orderId most s t) :
    QueueSound model t := by
  refine ⟨?_, ?_, limited_follows h.orders hs.limited (by rintro k ⟨⟩)⟩
  · -- the model is read beside another order
    obtain ⟨k, hk⟩ : ∃ k, k ≠ orderId := by
      by_cases horder : orderId = ""
      · exact ⟨"-", by rw [horder]; decide⟩
      · exact ⟨"", Ne.symm horder⟩
    rw [model_eq t k, h.queue k (absurd · hk), ← model_eq]
    exact hs.governed
  · intro k hk
    by_cases horder : k = orderId
    · subst horder
      obtain ⟨o', ho', -⟩ := h.orders.orders k o ho
      exact Option.isSome_iff_exists.mpr ⟨o', ho'⟩
    · rw [positionOf_eq, h.queue k (absurd · horder), ← positionOf_eq] at hk
      rw [h.beside.orders k horder]
      exact hs.known k hk

theorem event (hs : QueueSound model s) (h : s.workEvent c x = .ok t) : QueueSound model t := by
  have hmarked : QueueSound model (s.marked x.event) := by
    have horders : OrderBook.Follows [] s.pipeline.orders (s.marked x.event).pipeline.orders := by
      rw [(marked_orders x.event).1]
      exact .refl _
    refine hs.follows horders ?_ (by rintro k ⟨⟩)
    intro k
    unfold SimState.marked
    cases x.event.marketPrice <;> rfl
  refine workEvent_invariant hmarked ?_ ?_ ?_ h
  · intro u assetId held hu
    exact hu.follows (.refl _) (fun _ => rfl) (by rintro k ⟨⟩)
  · intro u v k hu hturn
    obtain ⟨o, ho⟩ := workTurn_finds hturn
    obtain rfl := Register.key_of_get? ho
    exact hu.turn ho (workTurn_turn ho (fillsWithin_none c x o.side) hturn)
  · intro u v k price ended allotted hu hturn
    obtain ⟨o, ho⟩ := uncrossTurn_finds hturn
    obtain rfl := Register.key_of_get? ho
    exact hu.turn ho (uncrossTurn_turn ho (fillsWithin_none c x o.side) (Or.inr rfl) hturn)

end QueueSound

theorem toOrder_limited (request : OrderRequest) (expireAt : Option Instant) :
    (request.toOrder expireAt).Limited := by
  intro htype
  have hvalid := request.terms.valid
  simp only [validTerms, Bool.and_eq_true] at hvalid
  obtain ⟨⟨⟨hlimit, -⟩, -⟩, -⟩ := hvalid
  have hneeds : request.terms.orderType = .limit ∨ request.terms.orderType = .stopLimit := htype
  show request.terms.limitPrice.isSome = true
  rcases hneeds with hkind | hkind
  · rw [hkind] at hlimit
    simpa using hlimit
  · rw [hkind] at hlimit
    simpa using hlimit

/-- **An arrival** follows on the orders there were, and leaves the queue. -/
theorem arrive_follows {rest : Bool} (h : s.arrive c x rest = .ok t) : ∃ new,
    OrderBook.Follows new s.pipeline.orders t.pipeline.orders ∧
      (∀ k, t.queueOf k = s.queueOf k) ∧
      ∀ k ∈ new, ∀ o, t.pipeline.orders.get? k = some o → o.Limited := by
  unfold SimState.arrive at h
  split at h
  · cases h
  · rename_i request pending _
    split at h
    · obtain rfl := pure_ok.mp h
      exact ⟨[], .refl _, fun _ => rfl, by rintro k ⟨⟩⟩
    · rename_i expireAt _
      simp only [bind_ok, mapError_ok] at h
      obtain ⟨placed, hplaced, h⟩ := h
      have hfollows := submitAndAccept_follows hplaced
      obtain ⟨-, o, hid, horder, horders⟩ := PipelineState.submitAndAccept_ok hplaced
      have ho : placed.orders.get? o.orderId = some o := by
        rw [horders]
        exact Register.get?_put_self _ _
      rw [← hid] at h hfollows
      have hturn : Turn x False o.orderId none
          { s with pipeline := placed, pending := pending } t :=
        workArrival_turn (fillsWithin_none c x o.side) ho h
      refine ⟨_, hfollows.trans hturn.orders, fun k => hturn.queue k fun _ => id, ?_⟩
      intro k hk o' ho'
      obtain rfl : k = o.orderId := by simpa using hk
      obtain ⟨o₁, ho₁, hmoves⟩ := hturn.orders.orders _ o ho
      obtain rfl := Option.some.inj (ho₁.symm.trans ho')
      intro htype
      rw [hmoves.limit, horder]
      refine toOrder_limited request expireAt ?_
      rw [hmoves.terms.orderType, horder] at htype
      exact htype

def SimCall.Places : SimCall → Prop
  | .arrive .. | .call _ => True
  | .event _ | .endStep .. => False

/-- **What a step does before it ends** follows on the orders there were, and leaves the
    queue. -/
theorem simStep_follows {call : SimCall} (hcall : call.Places) (h : simStep c s call = .ok t) :
    ∃ new, OrderBook.Follows new s.pipeline.orders t.pipeline.orders ∧
      (∀ k, t.queueOf k = s.queueOf k) ∧
      ∀ k ∈ new, ∀ o, t.pipeline.orders.get? k = some o → o.Limited := by
  cases call with
  | event x => cases hcall
  | arrive x rest => exact arrive_follows h
  | call call =>
    simp only [simStep, bind_ok, require_ok, mapError_ok, pure_ok, exists_const] at h
    obtain ⟨hcall, routed, hrouted, rfl⟩ := h
    exact ⟨[], (pipelineStep_untraded hcall hrouted).orders, fun _ => rfl, by rintro k ⟨⟩⟩
  | endStep x restingBefore => cases hcall

/-- **The end of a step** gives places to orders of the book alone. -/
theorem QueueSound.endStep {model : QueueModel} (hs : QueueSound model s) (restingBefore : ℕ) :
    QueueSound model (s.queueAfterStep c x restingBefore) := by
  have hjoin : ∀ u orderId, QueueSound model u → QueueSound model (u.joinPlaced x orderId) := by
    intro u orderId hu
    rw [joinPlaced_eq]
    split_ifs
    · exact hu
    · cases hoffer : u.joinedAt x orderId with
      | none => exact hu
      | some position =>
        obtain ⟨book, hqueue, hoffer⟩ := Option.bind_eq_some_iff.mp hoffer
        obtain ⟨o, ho, -⟩ := Option.bind_eq_some_iff.mp hoffer
        have hplaced : Turn x True orderId (some 0) u
            (u.moveQueue (·.placed orderId position)) := by
          obtain rfl := Register.key_of_get? ho
          exact placed_turn fun _ => position
        exact hu.turn ho hplaced
  unfold SimState.queueAfterStep
  split
  · exact hs
  · split_ifs
    · exact hs
    · exact List.foldlRecOn _ _ hs fun u hu orderId _ => hjoin u orderId hu

theorem simStep_queueSound {model : QueueModel} {call : SimCall} (hs : QueueSound model s)
    (h : simStep c s call = .ok t) : QueueSound model t := by
  cases call with
  | event x => exact hs.event h
  | arrive x rest =>
    have hplaces : SimCall.Places (.arrive x rest) := trivial
    obtain ⟨new, horders, hqueue, hnew⟩ := simStep_follows hplaces h
    exact hs.follows horders hqueue hnew
  | call call =>
    have hplaces : SimCall.Places (.call call) := trivial
    obtain ⟨new, horders, hqueue, hnew⟩ := simStep_follows hplaces h
    exact hs.follows horders hqueue hnew
  | endStep x restingBefore =>
    obtain rfl := pure_ok.mp h
    exact hs.endStep restingBefore

theorem initial_queueSound (budget : CapitalBudget) (portfolio : PortfolioState)
    (marketPrices : Dict String Decimal) (model : QueueModel) :
    QueueSound model (.initial budget portfolio marketPrices (some model)) := by
  refine ⟨rfl, ?_, ?_⟩
  · intro k hk
    cases hk
  · rintro k o ⟨⟩

theorem placing_follows (hrun : Runs (simStep c) (fun _ call => call.Places) s t) :
    ∃ new, OrderBook.Follows new s.pipeline.orders t.pipeline.orders ∧
      ∀ k, t.queueOf k = s.queueOf k := by
  refine hrun.invariant (fun u => ∃ new, OrderBook.Follows new s.pipeline.orders
    u.pipeline.orders ∧ ∀ k, u.queueOf k = s.queueOf k) ⟨[], .refl _, fun _ => rfl⟩ ?_
  rintro u call v ⟨new, horders, hqueue⟩ hplaces h
  obtain ⟨new', horders', hqueue', -⟩ := simStep_follows hplaces h
  exact ⟨_, horders.trans horders', fun k => (hqueue' k).trans (hqueue k)⟩

/-- Every queued order that was placed in an asset between `s` and `t`, and works in `t`,
    stands in `u` where the model lets it join at the event. -/
def SimState.AllJoined (model : QueueModel) (x : EventContext) (assetId : String)
    (s t u : SimState) : Prop :=
  ∀ o : Order, s.pipeline.orders.get? o.orderId = none →
    t.pipeline.orders.get? o.orderId = some o → o.isOpen = true → o.assetId = assetId →
    o.isQueued = true → ∃ limit, o.limitPrice = some limit ∧
      u.positionOf o.orderId = some (model.join o.side limit x.event.queueObservation)

/-- **Whether what a step placed has joined its queues when the step ends**: in a simulated
    run no order loses its place, and all have joined if and only if, of the orders placed in
    the asset that still work, the first as many as have gone are not queued. -/
theorem placed_orders_join_iff (c : SimulationConfig) (hrouting : c.pipeline.routing = .simulated)
    (budget : CapitalBudget) (portfolio : PortfolioState) (marketPrices : Dict String Decimal)
    (model : QueueModel) (x : EventContext) (assetId : String) (price : Decimal)
    (hprice : x.event.marketPrice = some (assetId, price)) (before s t u : SimState)
    (hrun : Runs (simStep c) (fun _ _ => True)
      (.initial budget portfolio marketPrices (some model)) before)
    (hevent : simStep c before (.event x) = .ok s)
    (hplacing : Runs (simStep c) (fun _ call => call.Places) s t)
    (hend : simStep c t (.endStep x (s.workingCount assetId)) = .ok u) :
    (∀ k position, t.positionOf k = some position → u.positionOf k = some position) ∧
      (SimState.AllJoined model x assetId s t u ↔
        ∀ k ∈ (s.placedSince t assetId).take (s.goneSince t assetId).length,
          ∀ o, t.pipeline.orders.get? k = some o → o.isQueued = false) := by
  have hs : QueueSound model s := simStep_queueSound
    (hrun.invariant _ (initial_queueSound budget portfolio marketPrices model)
      fun _ _ _ hu _ h => simStep_queueSound hu h) hevent
  have ht : QueueSound model t :=
    hplacing.invariant _ hs fun _ _ _ hu _ h => simStep_queueSound hu h
  obtain ⟨new, horders, hqueue⟩ := placing_follows hplacing
  obtain rfl := pure_ok.mp hend
  have hposition := queueAfterStep_positionOf (x := x) hrouting hprice horders
  -- what the step placed has no place before it ends
  have hunplaced : ∀ k, s.pipeline.orders.get? k = none → t.positionOf k = none := by
    intro k hnone
    rw [positionOf_eq, hqueue, ← positionOf_eq, ← Option.not_isSome_iff_eq_none]
    intro hsome
    have hknown := hs.known k hsome
    rw [hnone] at hknown
    cases hknown
  refine ⟨?_, ?_, ?_⟩
  · intro k position hk
    rw [hposition, hk, Option.some_or]
  · intro hjoined k hk o ho
    by_contra hqueued
    obtain ⟨hworking, hnew⟩ := List.mem_filter.mp (List.mem_of_mem_take hk)
    obtain ⟨o', ho', hopen, hasset⟩ := mem_workingOrdersFor.mp hworking
    obtain rfl := Option.some.inj (ho'.symm.trans ho)
    obtain rfl := Register.key_of_get? ho'
    have hnone : s.pipeline.orders.get? o'.orderId = none := by simpa using hnew
    obtain ⟨limit, -, hplace⟩ := hjoined o' hnone ho' hopen hasset (by simpa using hqueued)
    have hnodup : (s.placedSince t assetId).Nodup :=
      (workingOrdersFor_nodup _ _).filter _
    have hdropped : o'.orderId ∉
        (s.placedSince t assetId).drop (s.goneSince t assetId).length := by
      rw [← List.take_append_drop (s.goneSince t assetId).length (s.placedSince t assetId)] at hnodup
      exact fun hdrop => (List.nodup_append.mp hnodup).2.2 _ hk _ hdrop rfl
    rw [hposition, hunplaced _ hnone, if_neg hdropped] at hplace
    cases hplace
  · intro hfirst o hnone ho hopen hasset hqueued
    have hplaced : o.orderId ∈ s.placedSince t assetId := by
      refine List.mem_filter.mpr ⟨mem_workingOrdersFor.mpr ⟨o, ho, hopen, hasset⟩, ?_⟩
      rw [hnone]
      rfl
    have hdropped : o.orderId ∈
        (s.placedSince t assetId).drop (s.goneSince t assetId).length := by
      rw [← List.take_append_drop (s.goneSince t assetId).length (s.placedSince t assetId)]
        at hplaced
      refine (List.mem_append.mp hplaced).resolve_left fun htake => ?_
      rw [hfirst _ htake o ho] at hqueued
      cases hqueued
    have htype : o.orderType = .limit ∨ o.orderType = .stopLimit := by
      simp only [Order.isQueued, Bool.and_eq_true, Bool.or_eq_true, decide_eq_true_eq] at hqueued
      exact hqueued.2.imp id And.left
    obtain ⟨limit, hlimit⟩ := Option.isSome_iff_exists.mp (ht.limited _ o ho htype)
    obtain ⟨book, hbook, hmodel⟩ := Option.map_eq_some_iff.mp ht.governed
    refine ⟨limit, hlimit, ?_⟩
    rw [hposition, hunplaced _ hnone, if_pos hdropped, Option.none_or]
    simp [SimState.joinedAt, hbook, hmodel, ho, hlimit, hqueued]

end

/-! ## An order placed after a cancel -/

def aboveLimits : EventContext where
  event := ⟨0, .tick { assetId := "X", price := 12, quantity := 1 }⟩
  policy := immediateFill

def queuedRun : SimState :=
  .initial { globalCapital := 1000, maximumExposure := 1000 } thousandHeld
    (Dict.empty.set "X" 10) (some priceTimeQueue)

def ran (s : SimState) (calls : List SimCall) : SimState :=
  (calls.foldlM (simStep plainSimulation) s).toOption.getD s

def restingRun : SimState :=
  ran queuedRun [.call (.allocate (restingPurchase 0)), .arrive aboveLimits true,
    .endStep aboveLimits 0]

def secondPlaced : List SimCall :=
  [.call (.allocate (restingPurchase 1)), .arrive aboveLimits true]

theorem secondPlaced_places : ∀ call ∈ secondPlaced, call.Places := by
  intro call hcall
  rcases List.mem_cons.mp hcall with rfl | hcall
  · exact trivial
  · obtain rfl := List.mem_singleton.mp hcall
    exact trivial

/-- **A purchase placed in a step that cancels another does not join**: one order worked when
    the step began to place, and one works when it ends. -/
theorem placed_after_cancel_unjoined : ∃ before s t u,
    Runs (simStep plainSimulation) (fun _ _ => True) queuedRun before ∧
      simStep plainSimulation before (.event aboveLimits) = .ok s ∧
      Runs (simStep plainSimulation) (fun _ call => call.Places) s t ∧
      simStep plainSimulation t (.endStep aboveLimits (s.workingCount "X")) = .ok u ∧
      ¬ SimState.AllJoined priceTimeQueue aboveLimits "X" s t u := by
  set s := advanced restingRun (.event aboveLimits) with hs
  set t := ran s (.call (.finish "O" .cancelled 0) :: secondPlaced) with ht
  refine ⟨restingRun, s, t, advanced t (.endStep aboveLimits (s.workingCount "X")),
    .of_foldlM (ok_getD (by decide +kernel) _) fun _ _ _ => trivial,
    ok_getD (by decide +kernel) _, .of_foldlM (ok_getD (by decide +kernel) _) ?_,
    ok_getD (by decide +kernel) _, ?_⟩
  · intro call hcall _
    rcases List.mem_cons.mp hcall with rfl | hcall
    · exact trivial
    · exact secondPlaced_places call hcall
  · obtain ⟨o, ho, hnew, hopen, hasset, hqueued, hunplaced⟩ : ∃ o ∈ t.pipeline.orders.values,
        s.pipeline.orders.get? o.orderId = none ∧ o.isOpen = true ∧ o.assetId = "X" ∧
        o.isQueued = true ∧ (advanced t
          (.endStep aboveLimits (s.workingCount "X"))).positionOf o.orderId = none := by
      decide +kernel
    intro hjoined
    obtain ⟨limit, -, hplace⟩ :=
      hjoined o hnew (Register.mem_values.mp ho) hopen hasset hqueued
    rw [hunplaced] at hplace
    cases hplace

/-- Beside a purchase that still works, the second joins. -/
theorem second_purchase_joins : ∃ before s t u,
    Runs (simStep plainSimulation) (fun _ _ => True) queuedRun before ∧
      simStep plainSimulation before (.event aboveLimits) = .ok s ∧
      Runs (simStep plainSimulation) (fun _ call => call.Places) s t ∧
      simStep plainSimulation t (.endStep aboveLimits (s.workingCount "X")) = .ok u ∧
      s.placedSince t "X" ≠ [] ∧ SimState.AllJoined priceTimeQueue aboveLimits "X" s t u := by
  set s := advanced restingRun (.event aboveLimits) with hs
  set t := ran s secondPlaced with ht
  have hrun : Runs (simStep plainSimulation) (fun _ _ => True) queuedRun restingRun :=
    .of_foldlM (ok_getD (by decide +kernel) _) fun _ _ _ => trivial
  have hevent : simStep plainSimulation restingRun (.event aboveLimits) = .ok s :=
    ok_getD (by decide +kernel) _
  have hplacing : Runs (simStep plainSimulation) (fun _ call => call.Places) s t :=
    .of_foldlM (ok_getD (by decide +kernel) _) fun call hcall _ => secondPlaced_places call hcall
  have hend : simStep plainSimulation t (.endStep aboveLimits (s.workingCount "X")) =
      .ok (advanced t (.endStep aboveLimits (s.workingCount "X"))) := ok_getD (by decide +kernel) _
  refine ⟨restingRun, s, t, _, hrun, hevent, hplacing, hend, by decide +kernel, ?_⟩
  refine (placed_orders_join_iff plainSimulation rfl _ _ _ priceTimeQueue aboveLimits "X" 12 rfl
    restingRun s t _ hrun hevent hplacing hend).2.mpr ?_
  have hgone : s.goneSince t "X" = [] := by decide +kernel
  rw [hgone]
  rintro k ⟨⟩

end AlphaLab
