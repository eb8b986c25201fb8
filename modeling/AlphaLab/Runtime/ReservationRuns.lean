/-
  The reservation ledger over runs of the pipeline.

  * `ledger_sound`: a run of such calls leaves the ledger sound, and a batch is
    accepted within the budget alone.
-/
import AlphaLab.Runtime.Reservations

namespace AlphaLab

open Fallible

section
variable {c : PipelineConfig} {s : RoutingState} {t : PipelineState}

/-! ## Batches -/

variable {total : Decimal}

theorem foldl_add_of_exact {amounts : List Decimal} (h : ExactSums total amounts) :
    amounts.foldl add total = total + amounts.sum := by
  induction amounts generalizing total with
  | nil => simp
  | cons amount amounts ih =>
    have hfirst : add total amount = total + amount := h.1
    rw [List.foldl_cons, hfirst, ih h.2, List.sum_cons, add_assoc]

theorem exactReleases_append {first rest : List Decimal} (h : ExactReleases total (first ++ rest)) :
    ExactReleases total first ∧ ExactReleases (total - first.sum) rest := by
  induction first generalizing total with
  | nil => exact ⟨trivial, by simpa using h⟩
  | cons amount first ih =>
    obtain ⟨hfirst, hrest⟩ := ih h.2
    exact ⟨⟨h.1, hfirst⟩, by rwa [List.sum_cons, ← sub_sub]⟩

variable {b : AllocationInput}

theorem batchOrders_ids (a : AllocationState) (hinjective : Function.Injective b.newId) :
    ((batchOrders a b).map (·.request.orderId)).Nodup ∧
      ∀ e ∈ batchOrders a b, ∃ n, e.request.orderId = b.newId n := by
  obtain ⟨-, hnodup, horders⟩ := emitted_orders b (withinCeilings a b
    (sizeIntents a b (screenIntents b.timestamp b.intents).1).1).admitted
  refine ⟨hnodup hinjective, ?_⟩
  intro e he
  obtain ⟨quantity, -, -, n, hrequest⟩ := horders e he
  exact ⟨n, by rw [hrequest, orderOf]⟩

/-- What a batch adds to the total, where the sums are exact. -/
theorem placed_total {a a' : AllocationState} (hplaced : BatchPlaced a a' (batchOrders a b))
    (hsums : ExactSums 0 ((batchOrders a b).map (·.commitment)))
    (hexact : Exact (a.notionalAllocated + ((batchOrders a b).map (·.commitment)).sum)) :
    a'.notionalAllocated =
      a.notionalAllocated + ((batchOrders a b).map (·.commitment)).sum := by
  rw [hplaced.notionalAllocated, totalCommitment, foldl_add_of_exact hsums, zero_add]
  exact hexact

variable {a' : AllocationState}

/-- The entry of an order a batch has just placed, still to be routed. -/
theorem EntryKept.asked {s : PipelineState} {pending : Prop} {e : EmittedOrder}
    (hkept : EntryKept s False e.request.orderId)
    (hnew : e.request.orderId ∉ s.allocation.history.map (·.orderId))
    (hplaced : BatchPlaced s.allocation a' (batchOrders s.allocation b))
    (hnodup : ((batchOrders s.allocation b).map (·.request.orderId)).Nodup)
    (he : e ∈ batchOrders s.allocation b) (hpending : pending) :
    EntryKept (s.withAllocation a') pending e.request.orderId := by
  obtain ⟨-, -, -, hhistory, -, honce, hreleased⟩ := hkept
  obtain ⟨more, hmore, hevents⟩ := hplaced.events
  have hreservation : a'.reservations.get? e.request.orderId = some e.commitment := by
    rw [hplaced.reservations]
    refine Dict.get?_setAll_of_mem (e := (e.request.orderId, e.commitment)) ?_
      (List.mem_map_of_mem he)
    rwa [List.map_map]
  have hcontribution : a'.contributions.get? e.request.orderId = some e.request.contributions := by
    rw [hplaced.contributions]
    refine Dict.get?_setAll_of_mem (e := (e.request.orderId, e.request.contributions)) ?_
      (List.mem_map_of_mem he)
    rwa [List.map_map]
  have hreleases : releases a'.events e.request.orderId =
      releases s.allocation.events e.request.orderId := by
    rw [hevents]
    exact releases_append _ hmore _
  have hlisted : e.request.orderId ∈ a'.history.map (·.orderId) := by
    rw [hplaced.history, List.map_append, List.mem_append]
    exact Or.inr (List.mem_map_of_mem (List.mem_map_of_mem he))
  have hunbooked : ∀ o, s.orders.get? e.request.orderId ≠ some o :=
    fun o ho => hnew (hhistory o ho).1
  refine ⟨?_, fun _ _ => Or.inr hpending, fun o ho => absurd ho (hunbooked o),
    fun o ho => absurd ho (hunbooked o), fun _ => ⟨hlisted, _, hcontribution⟩,
    hreleases.trans_le honce, ?_⟩
  · intro amount hamount
    obtain rfl := Option.some.inj (hreservation.symm.trans hamount)
    exact ⟨emitted_commitments _ _ e he, _, hcontribution⟩
  · intro hone
    exact absurd (hreleased (hreleases.symm.trans hone)).2 hnew

/-- An entry that a batch did not place stays. -/
theorem EntryKept.unasked {s : PipelineState} {pending : Prop} {k : String}
    (hkept : EntryKept s False k)
    (hplaced : BatchPlaced s.allocation a' (batchOrders s.allocation b))
    (hk : k ∉ (batchOrders s.allocation b).map (·.request.orderId)) (hpending : ¬ pending) :
    EntryKept (s.withAllocation a') pending k := by
  obtain ⟨hamount, hentry, hopen, hhistory, -, honce, hreleased⟩ := hkept
  obtain ⟨more, hmore, hevents⟩ := hplaced.events
  have hreservation : a'.reservations.get? k = s.allocation.reservations.get? k := by
    rw [hplaced.reservations]
    refine Dict.get?_setAll_of_notMem ?_
    rwa [List.map_map]
  have hcontribution : a'.contributions.get? k = s.allocation.contributions.get? k := by
    rw [hplaced.contributions]
    refine Dict.get?_setAll_of_notMem ?_
    rwa [List.map_map]
  have hreleases : releases a'.events k = releases s.allocation.events k := by
    rw [hevents]
    exact releases_append _ hmore _
  have hlisted : k ∈ s.allocation.history.map (·.orderId) → k ∈ a'.history.map (·.orderId) := by
    intro h
    rw [hplaced.history, List.map_append, List.mem_append]
    exact Or.inl h
  refine ⟨?_, ?_, ?_, fun o ho => ⟨hlisted (hhistory o ho).1, hpending⟩,
    fun h => absurd h hpending, hreleases.trans_le honce, ?_⟩
  · intro amount h
    obtain ⟨hnonneg, contributions, hget⟩ := hamount amount (hreservation.symm.trans h)
    exact ⟨hnonneg, contributions, hcontribution.trans hget⟩
  · intro contributions h
    rcases hentry contributions (hcontribution.symm.trans h) with ho | hfalse
    · exact Or.inl ho
    · exact absurd hfalse not_false
  · intro o ho hopen'
    obtain ⟨contributions, hget⟩ := hopen o ho hopen'
    exact ⟨contributions, hcontribution.trans hget⟩
  · intro hone
    obtain ⟨hnone, hmem⟩ := hreleased (hreleases.symm.trans hone)
    exact ⟨hcontribution.trans hnone, hlisted hmem⟩

/-- **A batch allocated**, its sums exact: an entry an order, each still to be routed. -/
theorem LedgerKept.allocate (hs : LedgerKept s) (hpending : s.pending = [])
    (hexact : (PipelineCall.allocate b).SumsExact c s)
    (hnamed : (PipelineCall.allocate b).NamedAnew s) :
    LedgerKept ⟨s.pipeline.withAllocation (AlphaLab.allocate s.pipeline.allocation b).1,
      (AlphaLab.allocate s.pipeline.allocation b).2⟩ := by
  obtain ⟨hinjective, hfresh⟩ := hnamed
  obtain ⟨hsums, hsum⟩ := hexact
  obtain ⟨hnodup, hids⟩ := batchOrders_ids s.pipeline.allocation hinjective
  have hentries : ∀ k, EntryKept s.pipeline False k := by
    intro k
    simpa [hpending] using hs.entries k
  rcases allocate_entries s.pipeline.allocation b with ⟨hnone, hrefused⟩ | ⟨hsome, hplaced⟩
  · obtain ⟨more, hmore, hevents⟩ := hrefused.events
    have hkept := hs.of_logged
      (t := s.pipeline.withAllocation (AlphaLab.allocate s.pipeline.allocation b).1) rfl
      hrefused.reservations hrefused.contributions hrefused.notionalAllocated hrefused.history
      hmore hevents
    rwa [hpending, ← hnone] at hkept
  · rw [hsome]
    generalize (AlphaLab.allocate s.pipeline.allocation b).1 = a' at hplaced ⊢
    have hnew : ∀ e ∈ batchOrders s.pipeline.allocation b,
        e.request.orderId ∉ s.pipeline.allocation.history.map (·.orderId) := by
      intro e he
      obtain ⟨n, hn⟩ := hids e he
      rw [hn]
      exact hfresh n
    have htotal := placed_total hplaced hsums hsum
    have hdigits : Exact a'.notionalAllocated := by
      rw [htotal]
      exact hsum
    refine ⟨?_, hdigits, ?_, ?_⟩
    · -- what the new entries add is what the total grew by
      show a'.notionalAllocated = a'.reservedTotal
      have hvacant : ∀ k ∈ ((batchOrders s.pipeline.allocation b).map
          fun e => (e.request.orderId, e.commitment)).map Prod.fst,
          s.pipeline.allocation.reservations.get? k = none := by
        intro k hk
        rw [List.map_map, List.mem_map] at hk
        obtain ⟨e, he, rfl⟩ := hk
        rw [Option.eq_none_iff_forall_ne_some]
        intro amount hamount
        obtain ⟨-, contributions, hget⟩ := (hentries _).amount amount hamount
        rcases (hentries _).entry contributions hget with ⟨o, ho, -⟩ | hfalse
        · exact hnew e he ((hentries _).placed o ho).1
        · exact hfalse
      rw [htotal, AllocationState.reservedTotal, hplaced.reservations,
        Dict.sum_setAll_new _ (by rwa [List.map_map]) hvacant, hs.total,
        AllocationState.reservedTotal, List.map_map]
      rfl
    · dsimp only
      rwa [List.map_map]
    · intro k
      have hmem : k ∈ ((batchOrders s.pipeline.allocation b).map (·.request)).map (·.orderId) ↔
          k ∈ (batchOrders s.pipeline.allocation b).map (·.request.orderId) := by
        rw [List.map_map]
        rfl
      by_cases hk : k ∈ (batchOrders s.pipeline.allocation b).map (·.request.orderId)
      · obtain ⟨e, he, rfl⟩ := List.mem_map.mp hk
        exact (hentries _).asked (hnew e he) hplaced hnodup he (hmem.mpr hk)
      · exact (hentries k).unasked hplaced hk (fun h => hk (hmem.mp h))

variable {timestamp : Instant}

variable {request : OrderRequest} {rest : List OrderRequest}

theorem LedgerKept.drop (hs : LedgerKept s) (hpending : s.pending = request :: rest)
    (hexact : ExactReleases s.pipeline.allocation.notionalAllocated (s.pipeline.allocation.reserved
      request.orderId)) :
    LedgerKept ⟨s.pipeline.retireDroppedRequest request.orderId timestamp, rest⟩ := by
  have hnamed := hs.named
  rw [hpending, List.map_cons, List.nodup_cons] at hnamed
  have hmem : request.orderId ∈ s.pending.map (·.orderId) := by simp [hpending]
  refine hs.retire hexact (.refl _ _) rfl ?_ hnamed.2 hnamed.1 ?_
  · intro o ho
    exact absurd hmem (hs.notPending ho)
  · intro k hk
    simp [hpending, hk]

/-- **The next request placed**: its entries are an open order's. -/
theorem LedgerKept.place {expireAt : Option Instant} (hs : LedgerKept s)
    (hpending : s.pending = request :: rest)
    (h : s.pipeline.submitAndAccept request expireAt timestamp = .ok t) : LedgerKept ⟨t, rest⟩ := by
  obtain ⟨-, o, hid, ho, rfl⟩ := PipelineState.submitAndAccept_ok h
  have hopen : o.isOpen = true := by
    rw [ho]
    rfl
  have hnamed := hs.named
  rw [hpending, List.map_cons, List.nodup_cons] at hnamed
  obtain ⟨hlisted, contributions, hcontributions⟩ :=
    (hs.entries request.orderId).requested (by simp [hpending])
  obtain ⟨hamount, -, -, -, -, honce, hreleased⟩ := hs.entries request.orderId
  have hput := Register.get?_put_self (s.pipeline.orders.put (request.toOrder expireAt)) o
  rw [hid] at hput
  refine hs.of_beside request.orderId ?_ hs.total hs.digits hnamed.2 ?_ ?_ fun _ _ => rfl
  · refine ⟨?_, fun _ _ => rfl, fun _ _ => rfl, rfl, rfl, rfl⟩
    intro k hk
    refine (Register.get?_put_of_ne _ ?_).trans (Register.get?_put_of_ne _ hk)
    rwa [hid]
  · intro k hk
    simp [hpending, hk]
  · refine ⟨hamount, fun _ _ => Or.inl ⟨o, hput, hopen⟩,
      fun _ _ _ => ⟨contributions, hcontributions⟩, fun _ _ => ⟨hlisted, hnamed.1⟩,
      fun hmem => absurd hmem hnamed.1, honce, hreleased⟩

theorem LedgerKept.replacementRefused {trial : AllocationState} (hs : LedgerKept s) :
    LedgerKept ⟨s.pipeline.withAllocation { s.pipeline.allocation with
      events := s.pipeline.allocation.events ++
        (AlphaLab.allocate trial b).1.events.drop trial.events.length }, s.pending⟩ := by
  obtain ⟨more, hmore, hevents⟩ : ∃ more, ReleasesNothing more ∧
      (AlphaLab.allocate trial b).1.events = trial.events ++ more := by
    rcases allocate_entries trial b with ⟨-, hrefused⟩ | ⟨-, hplaced⟩
    · exact hrefused.events
    · exact hplaced.events
  refine hs.of_logged rfl rfl rfl rfl rfl hmore ?_
  rw [hevents, List.drop_left]
  rfl

/-- **Orders cancelled one after another**, their sums exact. -/
theorem LedgerKept.endAll {orderIds : List String} (hs : LedgerKept s) (hnodup : orderIds.Nodup)
    (hexact : ExactReleases s.pipeline.allocation.notionalAllocated (orderIds.flatMap
      s.pipeline.allocation.reserved)) (h : orderIds.foldlM (fun s orderId =>
      PipelineState.endUnfilled s orderId timestamp) s.pipeline = .ok t) :
    LedgerKept ⟨t, s.pending⟩ := by
  induction orderIds generalizing s with
  | nil =>
    obtain rfl := pure_ok.mp h
    exact hs
  | cons orderId orderIds ih =>
    rw [List.foldlM_cons, bind_ok] at h
    obtain ⟨u, hended, h⟩ := h
    rw [List.nodup_cons] at hnodup
    rw [List.flatMap_cons] at hexact
    obtain ⟨hfirst, hrest⟩ := exactReleases_append hexact
    have hkept := hs.ended hfirst hended
    have hothers : orderIds.flatMap u.allocation.reserved =
        orderIds.flatMap s.pipeline.allocation.reserved := by
      obtain ⟨-, -, hbeside, -⟩ := PipelineState.ended_spec hended
      refine List.flatMap_congr fun k hk => ?_
      have hne : k ≠ orderId := by
        rintro rfl
        exact hnodup.1 hk
      rw [AllocationState.reserved, AllocationState.reserved, hbeside.reservations k hne]
    have hleft : u.allocation.notionalAllocated =
        s.pipeline.allocation.notionalAllocated -
          (s.pipeline.allocation.reserved orderId).sum := by
      obtain ⟨o, -, -, rfl⟩ := PipelineState.ended_ok hended
      exact (retired_total _ _ _ hs.total hs.digits hfirst).1
    refine ih (s := ⟨u, s.pending⟩) hkept hnodup.2 ?_ h
    dsimp only
    rwa [hothers, hleft]

theorem LedgerKept.cancelWorking {assetId : String} (hs : LedgerKept s)
    (hexact : ExactReleases s.pipeline.allocation.notionalAllocated (s.pipeline.reservedIn assetId))
    (h : s.pipeline.cancelWorking c assetId timestamp = .ok t) : LedgerKept ⟨t, s.pending⟩ := by
  simp only [PipelineState.cancelWorking, bind_ok, require_ok, exists_const] at h
  exact hs.endAll (workingOrdersFor_nodup _ _) hexact h.2

/-- **A split** cancels what works in its asset, and moves no other entry. -/
theorem LedgerKept.split {split : Split} (hs : LedgerKept s) (hexact : ExactReleases
      s.pipeline.allocation.notionalAllocated (s.pipeline.reservedIn split.assetId))
    (h : s.pipeline.applySplit c split timestamp = .ok t) : LedgerKept ⟨t, s.pending⟩ := by
  simp only [PipelineState.applySplit, bind_ok] at h
  obtain ⟨current, hcurrent, h⟩ := h
  have hcancelled := hs.cancelWorking hexact hcurrent
  split_ifs at h <;> simp only [bind_ok, pure_ok] at h <;> obtain ⟨portfolio, -, rfl⟩ := h
  · exact hcancelled.of_entriesKept rfl (applySplit_kept _ _)
  · exact hcancelled.of_entriesKept rfl (applySplit_kept _ _)

variable {rates : FxRates}

/-- An exchange in the strategies' positions moves no entry. -/
theorem exchangeShares_kept {x : HoldingExchange} {shares : List (String × Decimal)}
    {legs : List (ExchangeLeg × ExchangedHolding)} {parts : List (String × List (String × Decimal))}
    {a a' : AllocationState} (h : exchangeShares c rates x shares legs parts timestamp a = .ok a') :
    EntriesKept a a' := by
  simp only [exchangeShares, bind_ok, pure_ok] at h
  generalize (if x.retainedBasisShare.isSome = true then [] else shares) = closed at h
  obtain ⟨exchanged, hexchanged, rfl⟩ := h
  have hlegs : EntriesKept a exchanged := by
    refine foldlM_invariant (EntriesKept a) hexchanged (.refl a) ?_
    intro leg _ a₁ a₂ hleg hkept
    simp only [exchangeLegShares, bind_ok, pure_ok] at hleg
    obtain ⟨value, -, rfl⟩ := hleg
    exact hkept.trans (applyLifecycle_kept _ _ _)
  split_ifs
  · exact hlegs.trans (applyLifecycle_kept _ _ _)
  · exact hlegs

/-- **An exchange** cancels what works in its asset, and moves no other entry. -/
theorem LedgerKept.exchange {ctx : ExchangeContext} {request : ExchangeRequest}
    (hs : LedgerKept s)
    (hexact : ExactReleases s.pipeline.allocation.notionalAllocated
      (s.pipeline.reservedIn request.exchange.assetId))
    (h : s.pipeline.applyExchange c ctx request = .ok t) : LedgerKept ⟨t, s.pending⟩ := by
  simp only [PipelineState.applyExchange, bind_ok] at h
  obtain ⟨current, hcurrent, h⟩ := h
  have hcancelled := hs.cancelWorking hexact hcurrent
  split at h
  · obtain rfl := pure_ok.mp h
    exact hcancelled
  · simp only [bind_ok, mapError_ok, pure_ok] at h
    obtain ⟨taken, -, plan, -, parts, -, portfolio, -, allocation, hallocation, rfl⟩ := h
    exact hcancelled.of_entriesKept rfl (exchangeShares_kept hallocation)

theorem LedgerKept.filled {orderId : String} {order : Order} {report : ExecutionReport}
    (hs : LedgerKept s) (ho : s.pipeline.orders.get? orderId = some order)
    (hexact : FillExact c rates s.pipeline orderId { report with orderId := orderId })
    (h : s.pipeline.applyReport c rates order { report with orderId := orderId } = .ok t) :
    LedgerKept ⟨t, s.pending⟩ := by
  have hid : order.orderId = ({ report with orderId := orderId } : ExecutionReport).orderId :=
    Register.key_of_get? ho
  exact hs.report hid hexact h

theorem pipelineStep_kept {call : PipelineCall} {s' : RoutingState} (hs : LedgerKept s)
    (hexact : call.SumsExact c s) (hnamed : call.NamedAnew s)
    (h : pipelineStep c s call = .ok s') : LedgerKept s' := by
  cases pipelineStep_cases h with
  | allocate hpending => exact hs.allocate hpending hexact hnamed
  | @drop request rest _ hpending =>
    exact hs.drop hpending (hexact request (by simp [hpending]))
  | place hpending hplaced => exact hs.place hpending hplaced
  | fill ho hfilled => exact hs.filled ho hexact hfilled
  | repeated => exact hs
  | @venueReport orderId _ report _ _ ho hfilled =>
    have hrecorded : LedgerKept ⟨s.pipeline.recordVenueExecution
        { report with orderId := orderId }, s.pending⟩ := hs.of_entriesKept rfl (.refl _)
    exact hrecorded.filled ho hexact hfilled
  | finish hended => exact hs.ended hexact hended
  | outcome hended => exact hs.ended hexact hended
  | triggered => exact hs
  | @trigger _ timestamp o ho =>
    have hid : ({ o with triggeredAt := some timestamp } : Order).orderId = o.orderId := rfl
    exact hs.put ho hid rfl rfl rfl
  | reduce hreduced => exact hs.reduce hexact hreduced
  | replacementRefused => exact hs.replacementRefused
  | split hafter => exact hs.split hexact hafter
  | exchange hafter => exact hs.exchange hexact hafter
  | book => exact hs.of_entriesKept rfl (.refl _)

theorem LedgerKept.initial (budget : CapitalBudget) (portfolio : PortfolioState)
    (marketPrices : Dict String Decimal) : LedgerKept (.initial budget portfolio marketPrices) := by
  have hzero : Exact 0 := by decide +kernel
  refine ⟨rfl, hzero, List.nodup_nil, fun orderId => ?_⟩
  constructor
  · rintro amount ⟨⟩
  · rintro contributions ⟨⟩
  · rintro o ⟨⟩
  · rintro o ⟨⟩
  · rintro ⟨⟩
  · exact Nat.zero_le 1
  · rintro ⟨⟩

theorem LedgerKept.sound (hs : LedgerKept s) (hpending : s.pending = []) :
    LedgerSound s.pipeline := by
  have hentry : ∀ orderId contributions,
      s.pipeline.allocation.contributions.get? orderId = some contributions →
      ∃ o, s.pipeline.orders.get? orderId = some o ∧ o.isOpen = true := by
    intro orderId contributions h
    rcases (hs.entries orderId).entry contributions h with ho | hmem
    · exact ho
    · simp [hpending] at hmem
  have hreserved : ∀ orderId amount,
      s.pipeline.allocation.reservations.get? orderId = some amount →
      ∃ o, s.pipeline.orders.get? orderId = some o ∧ o.isOpen = true := by
    intro orderId amount h
    obtain ⟨-, contributions, hget⟩ := (hs.entries orderId).amount amount h
    exact hentry orderId contributions hget
  refine ⟨hs.total, ?_, hreserved, hentry, fun orderId => (hs.entries orderId).kept,
    fun orderId => (hs.entries orderId).releasedOnce, ?_, ?_⟩
  · rw [hs.total, AllocationState.reservedTotal, Dict.sum]
    refine List.sum_nonneg ?_
    intro x hx
    obtain ⟨e, he, rfl⟩ := List.mem_map.mp hx
    exact ((hs.entries e.1).amount e.2 (((Dict.get?_eq_some _)).mpr he)).1
  · intro orderId hone
    rw [Option.eq_none_iff_forall_ne_some]
    intro amount h
    obtain ⟨-, contributions, hget⟩ := (hs.entries orderId).amount amount h
    rw [((hs.entries orderId).released hone).1] at hget
    cases hget
  · intro hflat
    have hnone : s.pipeline.allocation.reservations.entries = [] := by
      rw [List.eq_nil_iff_forall_not_mem]
      intro e he
      obtain ⟨o, ho, hopen⟩ := hreserved e.1 e.2 ((Dict.get?_eq_some _).mpr he)
      rw [hflat e.1 o ho] at hopen
      cases hopen
    rw [hs.total, AllocationState.reservedTotal, Dict.sum, hnone]
    rfl

end

theorem allocate_within (a : AllocationState) (b : AllocationInput) :
    ((allocate a b).2 = [] ∧ (allocate a b).1.notionalAllocated = a.notionalAllocated) ∨
      (allocate a b).1.notionalAllocated ≤ a.budget.availableGlobalCapital ∧
        (allocate a b).1.notionalAllocated ≤ a.budget.maximumExposure := by
  rcases allocate_entries a b with ⟨hnone, hrefused⟩ | ⟨-, hplaced⟩
  · exact Or.inl ⟨hnone, hrefused.notionalAllocated⟩
  · refine Or.inr ?_
    rw [hplaced.notionalAllocated]
    exact hplaced.fits

/-- **The reservation ledger holds exactly what open orders commit**, between the
    batches of every run whose sums are exact; and a batch is accepted within the
    budget alone. -/
theorem ledger_sound (c : PipelineConfig) (budget : CapitalBudget) (portfolio : PortfolioState)
    (marketPrices : Dict String Decimal) (s : RoutingState)
    (hrun : Runs (pipelineStep c) (fun s call => call.SumsExact c s ∧ call.NamedAnew s)
      (.initial budget portfolio marketPrices) s) :
    (s.pending = [] → LedgerSound s.pipeline) ∧
      ∀ b, ((allocate s.pipeline.allocation b).2 = [] ∧
          (allocate s.pipeline.allocation b).1.notionalAllocated =
            s.pipeline.allocation.notionalAllocated) ∨
        (allocate s.pipeline.allocation b).1.notionalAllocated ≤
            s.pipeline.allocation.budget.availableGlobalCapital ∧
          (allocate s.pipeline.allocation b).1.notionalAllocated ≤
            s.pipeline.allocation.budget.maximumExposure := by
  have hkept : LedgerKept s := by
    refine hrun.invariant _ (.initial budget portfolio marketPrices) ?_
    rintro t call u hkept ⟨hexact, hnamed⟩ hstep
    exact pipelineStep_kept hkept hexact hnamed hstep
  exact ⟨hkept.sound, allocate_within s.pipeline.allocation⟩

/-! ## An order cut in place -/

def dollarPipeline : PipelineConfig where
  settlementCurrencies := ["USD"]

def thousandHeld : PortfolioState where
  account := { accountId := "A-1", baseCurrency := "USD", name := "run", createdAt := 0 }
  cash := CashLedger.deposit {} 1000 "USD"

def thousandRun : RoutingState :=
  .initial { globalCapital := 1000, maximumExposure := 1000 } thousandHeld Dict.empty

/-- The names `O`, `OO`, … of a batch's orders. -/
def orderName (n : ℕ) : String := String.ofList (List.replicate (n + 1) 'O')

theorem orderName_injective : Function.Injective orderName := by
  intro n m h
  simpa [orderName] using congrArg String.length h

def fourUnits : AllocationInput where
  intents := [{ strategyId := "A", instrument := "X", target := 4 }]
  marketPrices := Dict.empty.set "X" 10
  sizingModel := fixedQuantitySizing
  constraints := {}
  timestamp := 0
  newId := orderName

/-- One unit of the purchase filled, a little above its price. -/
def firstUnit : ExecutionReport where
  executionId := "E"
  orderId := "O"
  assetId := "X"
  timestamp := 1
  fillPrice := 10.01
  fillQuantity := 1
  commission := 0
  currency := "USD"
  status := .partialFill

/-- **An order cut in place leaves a residue**: a third of what it reserves has no end of
    digits, the total and the reservation round it apart, and with the order cancelled
    the total is not zero. -/
theorem reduced_order_leaves_residue :
    ∃ s, [.allocate fourUnits, .place none 0, .fill "O" noRates firstUnit, .reduce "O" 1 2,
        .finish "O" .cancelled 3].foldlM (pipelineStep dollarPipeline) thousandRun = .ok s ∧
      s.pending = [] ∧ ¬ LedgerSound s.pipeline := by
  obtain ⟨s, hs, hpending, hclosed, hresidue⟩ := exists_ok_of (x :=
    [.allocate fourUnits, .place none 0, .fill "O" noRates firstUnit, .reduce "O" 1 2,
      .finish "O" .cancelled 3].foldlM (pipelineStep dollarPipeline) thousandRun)
    (fun s => s.pending = [] ∧ (∀ o ∈ s.pipeline.orders.values, o.isOpen = false) ∧
      s.pipeline.allocation.notionalAllocated ≠ 0) (by decide +kernel)
  refine ⟨s, hs, hpending, ?_⟩
  intro hsound
  refine hresidue (hsound.flat ?_)
  intro orderId o ho
  refine hclosed o (Register.mem_values.mpr ?_)
  rwa [Register.key_of_get? ho]

def stepped (s : RoutingState) (call : PipelineCall) : RoutingState :=
  (pipelineStep dollarPipeline s call).toOption.getD s

theorem ledger_sound_cancelled :
    LedgerSound (stepped (stepped (stepped thousandRun (.allocate fourUnits)) (.place none 0))
      (.finish "O" .cancelled 1)).pipeline := by
  set allocated := stepped thousandRun (.allocate fourUnits) with hallocated
  set placed := stepped allocated (.place none 0) with hplaced
  have hnamed : (PipelineCall.allocate fourUnits).NamedAnew thousandRun :=
    ⟨orderName_injective, fun _ h => by cases h⟩
  have hbatch : (PipelineCall.allocate fourUnits).SumsExact dollarPipeline thousandRun := by
    show ExactSums _ _ ∧ Exact _
    decide +kernel
  have hfreed : (PipelineCall.finish "O" .cancelled 1).SumsExact dollarPipeline placed := by
    show ExactReleases _ _
    decide +kernel
  have hbought : Runs (pipelineStep dollarPipeline)
      (fun s call => call.SumsExact dollarPipeline s ∧ call.NamedAnew s) thousandRun allocated :=
    Runs.refl.step (i := .allocate fourUnits) ⟨hbatch, hnamed⟩ (ok_getD (by decide +kernel) _)
  have hrouted : Runs (pipelineStep dollarPipeline)
      (fun s call => call.SumsExact dollarPipeline s ∧ call.NamedAnew s) thousandRun placed :=
    hbought.step (i := .place none 0) ⟨trivial, trivial⟩ (ok_getD (by decide +kernel) _)
  have hrun : Runs (pipelineStep dollarPipeline)
      (fun s call => call.SumsExact dollarPipeline s ∧ call.NamedAnew s) thousandRun
      (stepped placed (.finish "O" .cancelled 1)) :=
    hrouted.step (i := .finish "O" .cancelled 1) ⟨hfreed, trivial⟩
      (ok_getD (by decide +kernel) _)
  exact (ledger_sound dollarPipeline _ _ _ _ hrun).1 (by decide +kernel)

end AlphaLab
