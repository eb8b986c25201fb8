/-
  What the ledgers hold for an order, they hold while it is open or still to be routed.

  * `runStep_heldOpen`: every call of a run keeps it so, whatever ids its orders take;
  * `cancelWorking_cleared`: what works in an instrument cancelled, no order of it is
    open, and nothing is held for one.
-/
import AlphaLab.Runtime.ContractMoves

namespace AlphaLab

open Fallible

/-- Nothing is held for an order, unless it is open or still to be routed. -/
def HeldFor (s : PipelineState) (pending : Prop) (orderId : String) : Prop :=
  s.Freed orderId ∨ (∃ o, s.orders.get? orderId = some o ∧ o.isOpen = true) ∨ pending

/-- **Every entry of the ledgers is an open order's**, or that of a request still to be
    routed. -/
def HeldOpen (s : RoutingState) : Prop :=
  ∀ orderId, HeldFor s.pipeline (orderId ∈ s.pending.map (·.orderId)) orderId

section
variable {c : RunConfig} {s s' : RoutingState} {t u v : PipelineState}

variable {orderId : String}

theorem HeldFor.congr {pending pending' : Prop} (h : HeldFor u pending orderId)
    (hpending : pending → pending') (horders : v.orders.get? orderId = u.orders.get? orderId)
    (hreservations : v.allocation.reservations.get? orderId = u.allocation.reservations.get?
      orderId) (hcontributions : v.allocation.contributions.get? orderId =
      u.allocation.contributions.get? orderId) : HeldFor v pending' orderId := by
  rcases h with ⟨hr, hc⟩ | ho | hp
  · exact Or.inl ⟨hreservations.trans hr, hcontributions.trans hc⟩
  · exact Or.inr (Or.inl (horders ▸ ho))
  · exact Or.inr (Or.inr (hpending hp))

theorem HeldOpen.of_kept (hs : HeldOpen s) (h : OrdersKept s.pipeline t) :
    HeldOpen ⟨t, s.pending⟩ := by
  intro k
  exact (hs k).congr id (congrArg (·.get? k) h.orders) (h.reservations k) (h.contributions k)

theorem HeldOpen.of_beside (hs : HeldOpen s) {pending : List OrderRequest}
    (hbeside : PipelineState.Beside orderId s.pipeline t)
    (hrest : ∀ k, k ≠ orderId → k ∈ s.pending.map (·.orderId) → k ∈ pending.map (·.orderId))
    (hentry : HeldFor t (orderId ∈ pending.map (·.orderId)) orderId) : HeldOpen ⟨t, pending⟩ := by
  intro k
  by_cases hk : k = orderId
  · subst hk
    exact hentry
  · exact (hs k).congr (hrest k hk) (hbeside.orders k hk) (hbeside.reservations k hk)
      (hbeside.contributions k hk)

/-! ## Orders ended -/

variable {timestamp : Instant}

theorem HeldOpen.ended {ending : OrderEnding} (hs : HeldOpen s)
    (h : s.pipeline.ended orderId ending timestamp = .ok t) : HeldOpen ⟨t, s.pending⟩ := by
  obtain ⟨-, hfreed, hbeside, -⟩ := PipelineState.ended_spec h
  exact hs.of_beside hbeside (fun _ _ => id) (Or.inl hfreed)

/-- **What is cancelled one after another**: none of it is open any more, what is open
    was so before, and the book and the strategies' positions stay. -/
theorem endAll_spec {orderIds : List String}
    (h : orderIds.foldlM (fun s orderId => PipelineState.endUnfilled s orderId timestamp) u = .ok v)
    :
    (∀ k o, v.orders.get? k = some o → o.isOpen = true →
      k ∉ orderIds ∧ u.orders.get? k = some o) ∧
    v.allocation.strategyPositions = u.allocation.strategyPositions := by
  induction orderIds generalizing u with
  | nil =>
    obtain rfl := pure_ok.mp h
    exact ⟨fun k o ho _ => ⟨List.not_mem_nil, ho⟩, rfl⟩
  | cons orderId orderIds ih =>
    rw [List.foldlM_cons] at h
    obtain ⟨w, hended, h⟩ := bind_ok.mp h
    obtain ⟨hopen, hpositions⟩ := ih h
    obtain ⟨⟨o₁, ho₁, -, hclosed⟩, -, hbeside, -⟩ := PipelineState.ended_spec hended
    have hsame : w.allocation.strategyPositions = u.allocation.strategyPositions := by
      obtain ⟨o₂, -, -, rfl⟩ := PipelineState.ended_ok hended
      obtain ⟨-, -, -, -, hp, -⟩ := PipelineState.retireDroppedRequest_entries
        (u.putOrder { o₂ with status := OrderEnding.cancelled.status, updatedAt := timestamp })
        orderId timestamp
      exact hp
    refine ⟨?_, hpositions.trans hsame⟩
    intro k o ho hisOpen
    obtain ⟨hnot, hw⟩ := hopen k o ho hisOpen
    have hk : k ≠ orderId := by
      rintro rfl
      obtain rfl := Option.some.inj (hw.symm.trans hclosed)
      simp [Order.isOpen, OrderEnding.status_isTerminal] at hisOpen
    exact ⟨by simp [hk, hnot], (hbeside.orders k hk).symm.trans hw⟩

variable {config : PipelineConfig} {assetId : String}

theorem HeldOpen.cancelWorking (hs : HeldOpen s)
    (h : s.pipeline.cancelWorking config assetId timestamp = .ok t) : HeldOpen ⟨t, s.pending⟩ := by
  obtain ⟨_, -, h⟩ := bind_ok.mp h
  refine foldlM_invariant (fun u => HeldOpen ⟨u, s.pending⟩) h hs ?_
  intro orderId _ u v hended hu
  exact hu.ended hended

structure Cleared (s t : PipelineState) (assetId : String) : Prop where
  working : t.orders.workingOrdersFor assetId = []
  portfolio : t.portfolio = s.portfolio
  positions : t.allocation.strategyPositions = s.allocation.strategyPositions

/-- **What works in an instrument cancelled**: no order of it is open, and the book and
    the strategies' positions stay. -/
theorem cancelWorking_cleared (h : u.cancelWorking config assetId timestamp = .ok v) :
    Cleared u v assetId := by
  obtain ⟨_, -, h⟩ := bind_ok.mp h
  obtain ⟨hopen, hpositions⟩ := endAll_spec h
  refine ⟨?_, ?_, hpositions⟩
  · rw [List.eq_nil_iff_forall_not_mem]
    intro k hk
    obtain ⟨o, ho, hisOpen, hasset⟩ := mem_workingOrdersFor.mp hk
    obtain ⟨hnot, hbefore⟩ := hopen k o ho hisOpen
    exact hnot (mem_workingOrdersFor.mpr ⟨o, hbefore, hisOpen, hasset⟩)
  · refine foldlM_invariant (fun w : PipelineState => w.portfolio = u.portfolio) h rfl ?_
    intro orderId _ w w' hended hw
    obtain ⟨-, -, -, hportfolio, -⟩ := PipelineState.ended_spec hended
    exact hportfolio.trans hw

theorem Cleared.held (h : Cleared u v assetId) (asset : String) : v.held asset = u.held asset := by
  rw [held_eq, held_eq, h.portfolio]

theorem Cleared.sharesOf (h : Cleared u v assetId) (asset : String) :
    v.allocation.sharesOf asset = u.allocation.sharesOf asset := by
  unfold AllocationState.sharesOf
  rw [h.positions]

theorem HeldOpen.freed (hs : HeldOpen s) (hpending : s.pending = [])
    (hworking : s.pipeline.orders.workingOrdersFor assetId = []) {o : Order}
    (ho : s.pipeline.orders.get? orderId = some o) (hasset : o.assetId = assetId) :
    s.pipeline.Freed orderId := by
  rcases hs orderId with hfreed | ⟨o', ho', hopen⟩ | hmem
  · exact hfreed
  · obtain rfl := Option.some.inj (ho.symm.trans ho')
    have hmem : orderId ∈ s.pipeline.orders.workingOrdersFor assetId :=
      mem_workingOrdersFor.mpr ⟨o, ho, hopen, hasset⟩
    rw [hworking] at hmem
    cases hmem
  · rw [hpending] at hmem
    cases hmem

theorem HeldOpen.allocate {b : AllocationInput} (hs : HeldOpen s) (hpending : s.pending = []) :
    HeldOpen ⟨s.pipeline.withAllocation (AlphaLab.allocate s.pipeline.allocation b).1,
      (AlphaLab.allocate s.pipeline.allocation b).2⟩ := by
  intro k
  rcases allocate_entries s.pipeline.allocation b with ⟨-, hrefused⟩ | ⟨hsome, hplaced⟩
  · refine (hs k).congr (by simp [hpending]) rfl ?_ ?_
    · exact congrArg (·.get? k) hrefused.reservations
    · exact congrArg (·.get? k) hrefused.contributions
  · rw [hsome]
    by_cases hk : k ∈ (batchOrders s.pipeline.allocation b).map (·.request.orderId)
    · refine Or.inr (Or.inr ?_)
      rwa [List.map_map]
    · refine (hs k).congr (by simp [hpending]) rfl ?_ ?_
      · refine (congrArg (·.get? k) hplaced.reservations).trans (Dict.get?_setAll_of_notMem ?_)
        rwa [List.map_map]
      · refine (congrArg (·.get? k) hplaced.contributions).trans (Dict.get?_setAll_of_notMem ?_)
        rwa [List.map_map]

variable {rates : FxRates}

/-- **A report** leaves its order open, or nothing held for it. -/
theorem HeldOpen.report {order : Order} {report : ExecutionReport} (hs : HeldOpen s)
    (ho : s.pipeline.orders.get? orderId = some order) (hreport : report.orderId = orderId)
    (h : s.pipeline.applyReport config rates order report = .ok t) : HeldOpen ⟨t, s.pending⟩ := by
  obtain rfl := Register.key_of_get? ho
  refine hs.of_beside (PipelineState.applyReport_beside hreport h) (fun _ _ => id) ?_
  obtain ⟨filled, booked, notional, recorded, hfilled, hbooked, -, -, rfl⟩ :=
    PipelineState.applyReport_ok.mp h
  obtain ⟨-, _, portfolio, -, -, -, rfl⟩ := PipelineState.reportToPortfolio_ok hbooked
  -- the order is in the book the report leaves, open or not
  obtain ⟨o, ho'⟩ : ∃ o, filled.orders.get? order.orderId = some o := by
    rcases PipelineState.reportToOms_ok hfilled with ⟨rfl, -⟩ | ⟨o, o', ho', hmove, rfl⟩
    · exact ⟨order, ho⟩
    · refine ⟨o', ?_⟩
      have hid : o'.orderId = o.orderId := by
        rcases hmove with ⟨-, hfill⟩ | ⟨-, hfill⟩
        · obtain ⟨status, -, -, -, rfl⟩ := AlphaLab.fill_ok.mp hfill
          rfl
        · obtain ⟨status, -, -, -, rfl⟩ := AlphaLab.partialFill_ok.mp hfill
          rfl
      obtain rfl := Option.some.inj (ho'.symm.trans ho)
      rw [← hid]
      exact Register.get?_put_self _ _
  generalize hexec : ({ filled with portfolio := portfolio } : PipelineState).withAllocation
    (recorded.applyExecution report.orderId notional report.timestamp) = exec
  have hget : exec.orders.get? order.orderId = some o := by
    rw [← hexec]
    exact ho'
  by_cases hopen : o.isOpen = true
  · rw [PipelineState.releaseIfTerminal_of_open hget hopen]
    exact Or.inr (Or.inl ⟨o, hget, hopen⟩)
  · rw [PipelineState.releaseIfTerminal_of_closed hget (by simpa using hopen)]
    exact Or.inl (PipelineState.retireDroppedRequest_freed _ _ _)

theorem HeldOpen.put {o o' : Order} {orders : OrderBook} (hs : HeldOpen s)
    (ho : s.pipeline.orders.get? orderId = some o) (hid : o'.orderId = o.orderId)
    (hopen : o.isOpen = true → o'.isOpen = true) (horders : orders = s.pipeline.orders.put o') :
    HeldOpen ⟨{ s.pipeline with orders := orders }, s.pending⟩ := by
  subst horders
  have hbeside := PipelineState.put_beside (s := s.pipeline) ho hid
  refine hs.of_beside hbeside (fun _ _ => id) ?_
  have hput : (s.pipeline.orders.put o').get? orderId = some o' := by
    rw [← Register.key_of_get? ho, ← hid]
    exact Register.get?_put_self _ _
  rcases hs orderId with hfreed | ⟨o₁, ho₁, hopen₁⟩ | hmem
  · exact Or.inl hfreed
  · obtain rfl := Option.some.inj (ho.symm.trans ho₁)
    exact Or.inr (Or.inl ⟨o', hput, hopen hopen₁⟩)
  · exact Or.inr (Or.inr hmem)

theorem HeldOpen.reduce {remaining : Decimal} (hs : HeldOpen s)
    (h : s.pipeline.reduceInPlace orderId remaining timestamp = .ok t) :
    HeldOpen ⟨t, s.pending⟩ := by
  obtain ⟨o, o', contribution, total, reduced, ho, hreplace, -, hkept, contributions, rfl⟩ :=
    reduceInPlace_ok h
  obtain ⟨hopen, hid⟩ : o'.isOpen = true ∧ o'.orderId = o.orderId := by
    refine ⟨replaced_isOpen hreplace, ?_⟩
    obtain ⟨_, -, -, rfl⟩ := replace_ok.mp hreplace
    rfl
  have hreservations : ∀ k, k ≠ orderId → reduced.reservations.get? k =
      s.pipeline.allocation.reservations.get? k := by
    intro k hk
    rw [hkept.reservations]
    generalize (if 0 < contribution.quantity then 1 else -1 : Decimal) = sign
    unfold PipelineState.cutEntry
    split
    · rfl
    · split_ifs
      · rfl
      · exact Dict.get?_set_of_ne _ _ (by rwa [Register.key_of_get? ho])
  have hput : (s.pipeline.orders.put o').get? orderId = some o' := by
    rw [← Register.key_of_get? ho, ← hid]
    exact Register.get?_put_self _ _
  intro k
  by_cases hk : k = orderId
  · subst hk
    exact Or.inr (Or.inl ⟨o', hput, hopen⟩)
  · refine (hs k).congr id ?_ (hreservations k hk) (Dict.get?_set_of_ne _ _ hk)
    refine Register.get?_put_of_ne _ ?_
    rwa [hid, Register.key_of_get? ho]

/-- **A call of an order** keeps every entry an open order's. -/
theorem orderStep_heldOpen {call : PipelineCall} (hs : HeldOpen s)
    (h : orderStep c s call = .ok s') : HeldOpen s' := by
  obtain ⟨_, hworks, h⟩ := bind_ok.mp h
  cases pipelineStep_cases (mapError_ok.mp h) with
  | allocate hpending => exact hs.allocate hpending
  | drop hpending =>
    refine hs.of_beside (PipelineState.retireDroppedRequest_beside _ _ _) ?_
      (Or.inl (PipelineState.retireDroppedRequest_freed _ _ _))
    intro k hk hmem
    simpa [hpending, hk] using hmem
  | @place request _ expireAt _ _ hpending hplaced =>
    obtain ⟨-, o, hid, ho, rfl⟩ := PipelineState.submitAndAccept_ok hplaced
    have hput := Register.get?_put_self (s.pipeline.orders.put (request.toOrder expireAt)) o
    rw [hid] at hput
    refine hs.of_beside (?_ : PipelineState.Beside request.orderId _ _) ?_
      (Or.inr (Or.inl ⟨o, hput, ?_⟩))
    · refine ⟨?_, fun _ _ => rfl, fun _ _ => rfl, rfl, rfl, rfl⟩
      intro k hk
      refine (Register.get?_put_of_ne _ ?_).trans (Register.get?_put_of_ne _ hk)
      rwa [hid]
    · intro k hk hmem
      simpa [hpending, hk] using hmem
    · rw [ho]
      rfl
  | fill ho hfilled => exact hs.report ho rfl hfilled
  | repeated => exact hs
  | @venueReport orderId _ report _ _ ho hfilled =>
    have hrecorded : HeldOpen ⟨s.pipeline.recordVenueExecution
        { report with orderId := orderId }, s.pending⟩ :=
      hs.of_kept ⟨rfl, fun _ => rfl, fun _ => rfl⟩
    exact hrecorded.report ho rfl hfilled
  | finish hended => exact hs.ended hended
  | outcome hended => exact hs.ended hended
  | triggered => exact hs
  | @trigger _ timestamp o ho =>
    have hid : ({ o with triggeredAt := some timestamp } : Order).orderId = o.orderId := rfl
    exact hs.put ho hid id rfl
  | reduce hreduced => exact hs.reduce hreduced
  | replacementRefused => exact hs.of_kept ⟨rfl, fun _ => rfl, fun _ => rfl⟩
  | split | exchange | book => cases require_ok.mp hworks

/-! ## Other calls -/

theorem resolveOption_orders {o : DeclaredOption} {closing : Decimal}
    {underlyingValue : Option Decimal} {parts : List (String × Decimal)} {instructed : Bool}
    (hd : Declares c o.record o.economics)
    (h : u.resolveOption c o closing underlyingValue parts timestamp rates instructed = .ok v) :
    OrdersKept u v := by
  obtain ⟨price, w, moved, hsurrender, hmoved, -⟩ := resolveOption_conveyed hd h
  exact (surrender_conveyed hsurrender).1.kept.trans hmoved.kept

theorem closeContract_orders {record : ContractRecord} {economics : InstrumentEconomics}
    {x : ContractSettlement} {position : Position}
    (h : u.closeContract c record economics x position timestamp rates = .ok v) :
    OrdersKept u v := by
  have hsettled : OrdersKept u ((u.withAllocation (u.allocation.settleAsset x.assetId).1).withPrice
      x.assetId x.price) := by
    have hkept := settleAsset_kept (s := u.allocation) x.assetId
    exact .of_entries rfl hkept
  unfold PipelineState.closeContract at h
  cases hdelivery : record.settledDelivery with
  | none =>
    rw [hdelivery] at h
    exact hsettled.trans (lifecycleFill_conveyed h).1.kept
  | some d =>
    rw [hdelivery] at h
    obtain ⟨_, -, h⟩ := bind_ok.mp h
    obtain ⟨closed, hclosed, h⟩ := bind_ok.mp h
    exact (hsettled.trans (lifecycleFill_conveyed hclosed).1.kept).trans (deliver_conveyed h).1.kept

/-- The instrument whose working orders a call cancels. -/
def RunCall.clears : RunCall → Option String
  | .split x _ => some x.assetId
  | .exchange r => some r.exchange.assetId
  | .settle x _ _ => some x.assetId
  | .expire x _ _ => some x.assetId
  | _ => none

/-- The state a call acts on: with what works in its instrument cancelled, if it does so. -/
def RunCall.ClearedBy (c : RunConfig) (call : RunCall) (u w : PipelineState) : Prop :=
  match call.clears with
  | none => w = u
  | some assetId => ∃ timestamp, u.cancelWorking c.pipeline assetId timestamp = .ok w

variable {call : RunCall}

theorem RunCall.ClearedBy.same (h : call.clears = none) : call.ClearedBy c u u := by
  rw [RunCall.ClearedBy, h]

theorem RunCall.clearedBy_some (h : call.clears = some assetId) : call.ClearedBy c u v ↔
      ∃ timestamp, u.cancelWorking c.pipeline assetId timestamp = .ok v := by
  rw [RunCall.ClearedBy, h]

/-- **Every other call**, after it cancelled what works in its instrument if it does, keeps
    the orders and what is held for them. -/
theorem call_orders (h : u.call c call = .ok v) : ∃ w, call.ClearedBy c u w ∧ OrdersKept w v := by
  cases call with
  | order => cases h
  | market update timestamp =>
    obtain ⟨_, -, h⟩ := bind_ok.mp h
    obtain ⟨portfolio, -, h⟩ := bind_ok.mp h
    obtain rfl := pure_ok.mp h
    exact ⟨u, .same rfl, rfl, fun _ => rfl, fun _ => rfl⟩
  | cash call =>
    obtain ⟨_, -, h⟩ := bind_ok.mp h
    obtain ⟨portfolio, -, h⟩ := bind_ok.mp h
    obtain rfl := pure_ok.mp h
    exact ⟨u, .same rfl, rfl, fun _ => rfl, fun _ => rfl⟩
  | amendDelivery a =>
    obtain ⟨⟨portfolio, lost⟩, -, h⟩ := bind_ok.mp (mapError_ok.mp h)
    obtain rfl := pure_ok.mp h
    refine ⟨u, .same rfl, ?_⟩
    have hkept := applyLifecycle_kept (s := u.allocation) a.assetId lost none
    split_ifs
    · exact ⟨rfl, fun _ => rfl, fun _ => rfl⟩
    · exact .of_entries rfl hkept
  | split split timestamp =>
    obtain ⟨w, portfolio, hcancel, -, rfl⟩ := PipelineState.applySplit_ok (mapError_ok.mp h)
    have hkept := applySplit_kept (s := w.allocation) split.assetId split.ratio
    exact ⟨w, (RunCall.clearedBy_some rfl).mpr ⟨_, hcancel⟩, .of_entries rfl hkept⟩
  | exchange request =>
    obtain ⟨w, hcancel, h⟩ := bind_ok.mp (mapError_ok.mp h)
    refine ⟨w, (RunCall.clearedBy_some rfl).mpr ⟨_, hcancel⟩, ?_⟩
    split at h
    · obtain rfl := pure_ok.mp h
      exact .refl w
    · obtain ⟨taken, -, h⟩ := bind_ok.mp h
      obtain ⟨plan, -, h⟩ := bind_ok.mp h
      obtain ⟨parts, -, h⟩ := bind_ok.mp h
      obtain ⟨portfolio, -, h⟩ := bind_ok.mp h
      obtain ⟨allocation, hallocation, h⟩ := bind_ok.mp h
      obtain rfl := pure_ok.mp h
      have hkept := exchangeShares_kept hallocation
      exact .of_entries rfl hkept
  | settle x timestamp rates =>
    obtain ⟨found, -, h⟩ := bind_ok.mp (mapError_ok.mp h)
    obtain ⟨w, hcancel, h⟩ := bind_ok.mp h
    refine ⟨w, (RunCall.clearedBy_some rfl).mpr ⟨_, inPipeline_ok.mp hcancel⟩, ?_⟩
    split at h
    · obtain rfl := pure_ok.mp h
      have hkept := settleAsset_kept (s := w.allocation) x.assetId
      exact .of_entries rfl hkept
    · exact closeContract_orders h
  | exercise x timestamp rates =>
    obtain ⟨o, ho, h⟩ := bind_ok.mp (mapError_ok.mp h)
    obtain ⟨_, -, h⟩ := bind_ok.mp h
    obtain ⟨parts, -, h⟩ := bind_ok.mp h
    exact ⟨u, .same rfl, resolveOption_orders (exercisable_declares ho) h⟩
  | assign x timestamp rates =>
    obtain ⟨o, ho, h⟩ := bind_ok.mp (mapError_ok.mp h)
    obtain ⟨_, -, h⟩ := bind_ok.mp h
    obtain ⟨parts, -, h⟩ := bind_ok.mp h
    exact ⟨u, .same rfl, resolveOption_orders (exercisable_declares ho) h⟩
  | ask strategyId x timestamp rates =>
    obtain ⟨o, ho, h⟩ := bind_ok.mp (mapError_ok.mp h)
    obtain ⟨_, -, h⟩ := bind_ok.mp h
    obtain ⟨value, -, h⟩ := bind_ok.mp h
    exact ⟨u, .same rfl, resolveOption_orders (exercisable_declares ho) h⟩
  | expire x timestamp rates =>
    obtain ⟨o, w, intrinsic, current, ho, hcancel, -, rfl, h⟩ := expireOption_ok (mapError_ok.mp h)
    refine ⟨w, (RunCall.clearedBy_some rfl).mpr ⟨_, hcancel⟩, ?_⟩
    have hpriced : OrdersKept w (w.withPrice x.assetId intrinsic) :=
      ⟨rfl, fun _ => rfl, fun _ => rfl⟩
    rcases h with ⟨-, rfl⟩ | ⟨-, parts, -, ⟨-, h⟩ | ⟨-, h⟩⟩
    · exact hpriced
    · exact hpriced.trans (resolveOption_orders (declaredOption_declares ho).1 h)
    · exact hpriced.trans (surrender_conveyed h).1.kept
  | restore =>
    obtain ⟨snapshot, -, h⟩ := bind_ok.mp (mapError_ok.mp h)
    obtain rfl := pure_ok.mp h
    exact ⟨u, .same rfl, rfl, fun k => Dict.get?_sorted _ k, fun k => Dict.get?_sorted _ k⟩

theorem bookStep_ok :
    bookStep c s call = .ok s' ↔
      s.pending = [] ∧ s.pipeline.call c call = .ok s'.pipeline ∧ s'.pending = [] := by
  obtain ⟨after, pending⟩ := s'
  simp only [bookStep, bind_ok, require_ok, pure_ok, exists_const, RoutingState.mk.injEq]
  constructor
  · rintro ⟨hpending, _, hafter, rfl, rfl⟩
    exact ⟨hpending, hafter, hpending⟩
  · rintro ⟨hpending, hafter, rfl⟩
    exact ⟨hpending, after, hafter, rfl, hpending⟩

/-- **A call of a run** keeps every entry an open order's. -/
theorem runStep_heldOpen (hs : HeldOpen s) (h : runStep c s call = .ok s') : HeldOpen s' := by
  have hbook : bookStep c s call = .ok s' → HeldOpen s' := by
    intro h
    obtain ⟨hpending, hcall, hafter⟩ := bookStep_ok.mp h
    obtain ⟨w, hcancel, hkept⟩ := call_orders hcall
    have hw : HeldOpen ⟨w, s.pending⟩ := by
      cases hclears : call.clears with
      | none =>
        rw [RunCall.ClearedBy, hclears] at hcancel
        exact hcancel ▸ hs
      | some assetId =>
        obtain ⟨timestamp, hcancel⟩ := (RunCall.clearedBy_some hclears).mp hcancel
        exact hs.cancelWorking hcancel
    have ht := hw.of_kept hkept
    rwa [hpending, ← hafter] at ht
  cases call with
  | order call => exact orderStep_heldOpen hs h
  | _ => exact hbook h

/-- **Every state a run reaches** holds something only for open orders, and for requests
    still to be routed. -/
theorem reached_heldOpen {meets : RoutingState → RunCall → Prop} {budget : CapitalBudget}
    {account : Account} (h : Reached c meets budget account s) : HeldOpen s := by
  refine Runs.invariant HeldOpen h (fun _ => Or.inl ⟨rfl, rfl⟩) ?_
  intro s call s' hs _ hstep
  exact runStep_heldOpen hs hstep

end

end AlphaLab
