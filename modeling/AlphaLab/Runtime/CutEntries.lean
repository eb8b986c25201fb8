/-
  What the pipeline's calls leave of the entry of an order they are not about.

  * `EntrySame`: two states of the ledgers hold the same for an order, for the
    account and for one of its strategies;
  * `Aside`: the same of the pipeline, with the order itself.
-/
import AlphaLab.Allocation.CeilingRuns
import AlphaLab.Runtime.CutShares
import AlphaLab.Runtime.ReservationRuns

namespace AlphaLab

open Fallible

namespace StrategyCapital

variable (c : StrategyCapital) {orderId k : String}

theorem get?_reserved_reserve (h : k ≠ orderId) (amount : Decimal) :
    (c.reserve orderId amount).reserved.get? k = c.reserved.get? k := by
  unfold reserve
  split_ifs
  · rfl
  · exact Dict.get?_set_of_ne _ _ h

theorem get?_reserved_release (h : k ≠ orderId) :
    (c.release orderId).reserved.get? k = c.reserved.get? k := by
  unfold release
  split
  · rfl
  · simp [Dict.get?_delete, h]

theorem get?_reserved_reduce (h : k ≠ orderId) (amount : Decimal) :
    (c.reduce orderId amount).reserved.get? k = c.reserved.get? k := by
  unfold reduce
  split
  · rfl
  · dsimp only
    split_ifs
    · rfl
    · exact Dict.get?_set_of_ne _ _ h
    · simp [Dict.get?_delete, h]

theorem get?_reserved_fill (h : k ≠ orderId) (assetId : String)
    (held quantity unitValue : Decimal) :
    (c.fill orderId assetId held quantity unitValue).reserved.get? k = c.reserved.get? k := by
  unfold fill
  dsimp only
  split
  · rfl
  · split_ifs
    · exact Dict.get?_set_of_ne _ _ h
    · simp [Dict.get?_delete, h]
    · rfl

end StrategyCapital

/-! ## The ledgers -/

/-- `t` holds for an order, and for a strategy of it, what `s` does. -/
structure EntrySame (orderId strategyId : String) (s t : AllocationState) : Prop where
  reservation : t.reservations.get? orderId = s.reservations.get? orderId
  contributions : t.contributions.get? orderId = s.contributions.get? orderId
  capital : (t.capitalOf strategyId).reserved.get? orderId =
    (s.capitalOf strategyId).reserved.get? orderId
  budget : t.budget = s.budget
  recorded : s.strategyPositions ≠ none → t.strategyPositions ≠ none

section
variable {orderId strategyId k : String} {s t u : AllocationState}

theorem EntrySame.refl (s : AllocationState) : EntrySame orderId strategyId s s :=
  ⟨rfl, rfl, rfl, rfl, id⟩

theorem EntrySame.trans (h : EntrySame orderId strategyId s t)
    (h' : EntrySame orderId strategyId t u) : EntrySame orderId strategyId s u :=
  ⟨h'.reservation.trans h.reservation, h'.contributions.trans h.contributions,
    h'.capital.trans h.capital, h'.budget.trans h.budget, h'.recorded ∘ h.recorded⟩

theorem EntrySame.foldl {ι : Type} {f : AllocationState → ι → AllocationState} (l : List ι)
    (hf : ∀ s, ∀ i ∈ l, EntrySame orderId strategyId s (f s i)) (s : AllocationState) :
    EntrySame orderId strategyId s (l.foldl f s) := by
  induction l generalizing s with
  | nil => exact .refl s
  | cons i l ih =>
    exact (hf s i (by simp)).trans (ih (fun s j hj => hf s j (by simp [hj])) (f s i))

variable (i a : String) (quantity : Decimal)

theorem setPosition_same :
    EntrySame orderId strategyId s (s.setPosition i a quantity) :=
  ⟨rfl, rfl, rfl, rfl, by simp [AllocationState.setPosition]⟩

theorem settlePosition_same :
    EntrySame orderId strategyId s (s.settlePosition i a quantity) :=
  ⟨rfl, rfl, rfl, rfl, by simp [AllocationState.settlePosition]⟩

theorem setCapital_same {capital : StrategyCapital}
    (h : capital.reserved.get? orderId = (s.capitalOf i).reserved.get? orderId) :
    EntrySame orderId strategyId s (s.setCapital i capital) := by
  refine ⟨rfl, rfl, ?_, rfl, id⟩
  rw [capitalOf_setCapital]
  split_ifs with hi
  · rw [hi, h]
  · rfl

theorem capitalOf_of_get? {i : String} {capital : StrategyCapital}
    (h : s.strategyCapital.get? i = some capital) : s.capitalOf i = capital := by
  rw [AllocationState.capitalOf, h, Option.getD_some]

theorem moveCapital_same (hk : orderId ≠ "") (i a : String) (held quantity unitValue : Decimal) :
    EntrySame orderId strategyId s (s.moveCapital i a held quantity unitValue) := by
  unfold AllocationState.moveCapital
  split
  · exact .refl s
  · rename_i capital hcapital
    refine setCapital_same i ?_
    rw [StrategyCapital.get?_reserved_fill _ hk, capitalOf_of_get? hcapital]

theorem applySplit_same (assetId : String) (ratio : Decimal) :
    EntrySame orderId strategyId s (s.applySplit assetId ratio) := by
  refine .foldl _ (fun s e _ => ?_) s
  split
  · exact .refl s
  · exact setPosition_same _ _ _

theorem applyLifecycle_same (hk : orderId ≠ "") (assetId : String)
    (closed : List (String × Decimal))
    (delivered : Option (String × List (String × Decimal) × Decimal)) :
    EntrySame orderId strategyId s (s.applyLifecycle assetId closed delivered) := by
  unfold AllocationState.applyLifecycle
  have hclosed : EntrySame orderId strategyId s
      (closed.foldl (fun s e => s.closeUnits assetId e) s) :=
    .foldl _ (fun _ _ _ => (settlePosition_same _ _ _).trans (moveCapital_same hk _ _ _ _ _)) s
  split_ifs
  · exact .refl s
  · dsimp only
    split
    · exact hclosed
    · refine hclosed.trans (.foldl _ (fun _ _ _ => ?_) _)
      exact (settlePosition_same _ _ _).trans (moveCapital_same hk _ _ _ _ _)

theorem exchangeShares_same (hk : orderId ≠ "") {c : PipelineConfig} {rates : FxRates}
    {x : HoldingExchange} {shares : List (String × Decimal)}
    {legs : List (ExchangeLeg × ExchangedHolding)}
    {parts : List (String × List (String × Decimal))} {timestamp : Instant}
    (h : exchangeShares c rates x shares legs parts timestamp s = .ok t) :
    EntrySame orderId strategyId s t := by
  simp only [exchangeShares, bind_ok, pure_ok] at h
  generalize (if x.retainedBasisShare.isSome = true then [] else shares) = closed at h
  obtain ⟨exchanged, hexchanged, rfl⟩ := h
  have hlegs : EntrySame orderId strategyId s exchanged := by
    refine foldlM_invariant (EntrySame orderId strategyId s) hexchanged (.refl s) ?_
    intro leg _ u v hleg hsame
    simp only [exchangeLegShares, bind_ok, pure_ok] at hleg
    obtain ⟨value, -, rfl⟩ := hleg
    exact hsame.trans (applyLifecycle_same hk _ _ _)
  split_ifs
  · exact hlegs.trans (applyLifecycle_same hk _ _ _)
  · exact hlegs

/-- **A fill of another order** leaves an order's entry. -/
theorem recordFill_same (hk : orderId ≠ k) {assetId : String} {signed : Decimal}
    {notional : Option Decimal} (h : s.recordFill k assetId signed notional = .ok t) :
    EntrySame orderId strategyId s t := by
  unfold AllocationState.recordFill at h
  dsimp only at h
  split_ifs at h
  · rw [← pure_ok.mp h]
    exact .refl s
  · obtain ⟨parts, -, h⟩ := bind_ok.mp h
    rw [← pure_ok.mp h]
    refine .foldl _ (fun s part _ => ?_) s
    have hposition : EntrySame orderId strategyId s
        (s.setPosition part.1 assetId (s.positionOf part.1 assetId + part.2)) :=
      setPosition_same _ _ _
    unfold AllocationState.bookShare
    dsimp only
    split
    · refine hposition.trans (setCapital_same part.1 ?_)
      exact StrategyCapital.get?_reserved_fill _ hk _ _ _ _
    · exact hposition

theorem applyExecution_same (hk : orderId ≠ k) (notional : Decimal) (timestamp : Instant) :
    EntrySame orderId strategyId s (s.applyExecution k notional timestamp) :=
  ⟨(PipelineState.applyExecution_beside s k notional timestamp).2.2.2 orderId hk, rfl, rfl, rfl,
    id⟩

theorem retireContributions_same (hk : orderId ≠ k) :
    EntrySame orderId strategyId s (s.retireContributions k) := by
  unfold AllocationState.retireContributions
  split
  · exact .refl s
  · rename_i contributions _
    have hfreed : EntrySame orderId strategyId s
        (contributions.foldl (fun s c => s.freeCapital k c.strategyId) s) := by
      refine .foldl _ (fun s c _ => ?_) s
      unfold AllocationState.freeCapital
      split
      · exact .refl s
      · rename_i capital hcapital
        refine setCapital_same _ ?_
        rw [StrategyCapital.get?_reserved_release _ hk, capitalOf_of_get? hcapital]
    refine ⟨hfreed.reservation, ?_, hfreed.capital, hfreed.budget, hfreed.recorded⟩
    exact (Dict.get?_delete _ _ _).trans (if_neg hk)

/-- **A batch leaves the orders it does not name.** -/
theorem allocate_same {b : AllocationInput} (h : ∀ r ∈ (allocate s b).2, r.orderId ≠ orderId) :
    EntrySame orderId strategyId s (allocate s b).1 := by
  unfold allocate at h ⊢
  dsimp only at h ⊢
  split_ifs with hnone hfits
  · exact ⟨rfl, rfl, rfl, rfl, id⟩
  · rw [if_neg hnone, if_pos hfits] at h
    refine (EntrySame.foldl _ (fun s e he => ?_) s).trans ⟨rfl, rfl, rfl, rfl, id⟩
    have hne : orderId ≠ e.request.orderId := (h e.request (List.mem_map_of_mem he)).symm
    have hentered : EntrySame orderId strategyId s { s with
        reservations := s.reservations.set e.request.orderId e.commitment
        contributions := s.contributions.set e.request.orderId e.request.contributions } :=
      ⟨Dict.get?_set_of_ne _ _ hne, Dict.get?_set_of_ne _ _ hne, rfl, rfl, id⟩
    refine hentered.trans (.foldl _ (fun s c _ => ?_) _)
    unfold reserveCapital
    split
    · exact .refl s
    · exact setCapital_same _ (StrategyCapital.get?_reserved_reserve _ hne _)
  · exact ⟨rfl, rfl, rfl, rfl, id⟩

end

/-! ## The pipeline -/

/-- `t` has an order, and what is held for it, as `s` does. -/
structure Aside (orderId strategyId : String) (s t : PipelineState) : Prop where
  order : t.orders.get? orderId = s.orders.get? orderId
  entry : EntrySame orderId strategyId s.allocation t.allocation
  history : t.allocation.history = s.allocation.history

namespace PipelineState

section
variable {orderId strategyId k : String} {s t u : PipelineState} {timestamp : Instant}

theorem aside_refl (s : PipelineState) : Aside orderId strategyId s s := ⟨rfl, .refl _, rfl⟩

theorem aside_trans (h : Aside orderId strategyId s t) (h' : Aside orderId strategyId t u) :
    Aside orderId strategyId s u :=
  ⟨h'.order.trans h.order, h.entry.trans h'.entry, h'.history.trans h.history⟩

theorem retireDroppedRequest_aside (hk : orderId ≠ k) :
    Aside orderId strategyId s (s.retireDroppedRequest k timestamp) := by
  refine ⟨rfl, ?_, (retireDroppedRequest_beside s k timestamp).history⟩
  unfold retireDroppedRequest
  refine EntrySame.trans (t := (s.releaseReservation k timestamp).allocation) ?_
    (retireContributions_same hk)
  cases hheld : s.allocation.reservations.get? k with
  | none =>
    rw [releaseReservation_of_none hheld]
    exact .refl _
  | some released =>
    rw [releaseReservation_of_some hheld]
    exact ⟨(Dict.get?_delete _ _ _).trans (if_neg hk), rfl, rfl, rfl, id⟩

theorem putOrder_aside {o o' : Order} (hk : orderId ≠ k) (ho : s.orders.get? k = some o)
    (hid : o'.orderId = o.orderId) : Aside orderId strategyId s (s.putOrder o') :=
  ⟨(put_beside ho hid).orders orderId hk, .refl _, rfl⟩

theorem ended_aside {ending : OrderEnding} (hk : orderId ≠ k)
    (h : s.ended k ending timestamp = .ok t) : Aside orderId strategyId s t := by
  obtain ⟨o, ho, -, rfl⟩ := ended_ok h
  have hput : Aside orderId strategyId s
      (s.putOrder { o with status := ending.status, updatedAt := timestamp }) :=
    putOrder_aside hk ho rfl
  exact aside_trans hput (retireDroppedRequest_aside hk)

theorem releaseIfTerminal_aside (hk : orderId ≠ k) :
    Aside orderId strategyId s (s.releaseIfTerminal k timestamp) := by
  rcases releaseIfTerminal_cases s k timestamp with h | h
  · rw [h]
    exact aside_refl s
  · rw [h]
    exact retireDroppedRequest_aside hk

theorem applyReport_aside {c : PipelineConfig} {rates : FxRates} {order : Order}
    {report : ExecutionReport} (hk : orderId ≠ order.orderId)
    (hreport : report.orderId = order.orderId) (h : s.applyReport c rates order report = .ok t) :
    Aside orderId strategyId s t := by
  have hbeside := applyReport_beside hreport h
  obtain ⟨filled, booked, notional, recorded, hfilled, hbooked, -, hrecorded, rfl⟩ :=
    applyReport_ok.mp h
  have homs : filled.allocation = s.allocation := by
    rcases reportToOms_ok hfilled with ⟨rfl, -⟩ | ⟨o, o', -, -, rfl⟩
    · rfl
    · rfl
  obtain ⟨-, f, portfolio, -, -, -, rfl⟩ := reportToPortfolio_ok hbooked
  refine ⟨hbeside.orders orderId hk, ?_, hbeside.history⟩
  have hledger : EntrySame orderId strategyId s.allocation
      (recorded.applyExecution report.orderId notional report.timestamp) := by
    rw [← homs]
    exact (recordFill_same (hreport ▸ hk) hrecorded).trans (applyExecution_same (hreport ▸ hk) _ _)
  exact hledger.trans (releaseIfTerminal_aside (s := withAllocation _ _) hk).entry

/-- **Another order cut in place.** -/
theorem reduceInPlace_aside {remaining : Decimal} (hk : orderId ≠ k)
    (h : s.reduceInPlace k remaining timestamp = .ok t) : Aside orderId strategyId s t := by
  simp only [reduceInPlace, bind_ok, mapError_ok, update_ok, OrderBook.find, orRefuse_ok] at h
  obtain ⟨o, ho, _, ⟨o₁, o', ho₁, hreplace, rfl⟩, h⟩ := h
  obtain rfl := Option.some.inj (ho.symm.trans ho₁)
  obtain ⟨status, -, -, rfl⟩ := replace_ok.mp hreplace
  split at h
  · rename_i contribution _
    simp only [bind_ok, pure_ok] at h
    obtain ⟨reduced, hreduced, rfl⟩ := h
    have hown : o.orderId = k := Register.key_of_get? ho
    generalize (if 0 < contribution.quantity then (1 : Decimal) else -1) = sign at hreduced
    obtain ⟨hcut, hcutHistory⟩ : EntrySame orderId strategyId s.allocation
        (s.cutEntry o sign remaining) ∧
        (s.cutEntry o sign remaining).history = s.allocation.history := by
      unfold cutEntry
      split
      · exact ⟨.refl _, rfl⟩
      · split_ifs
        · exact ⟨.refl _, rfl⟩
        · exact ⟨⟨Dict.get?_set_of_ne _ _ (hown ▸ hk), rfl, rfl, rfl, id⟩, rfl⟩
    obtain ⟨hcapital, hhistory⟩ : EntrySame orderId strategyId
        (s.cutEntry o sign remaining) reduced ∧
        reduced.history = (s.cutEntry o sign remaining).history := by
      unfold reduceCapital at hreduced
      split at hreduced
      · rw [← pure_ok.mp hreduced]
        exact ⟨.refl _, rfl⟩
      · rename_i capital hget
        split at hreduced
        · rw [← pure_ok.mp hreduced]
          exact ⟨.refl _, rfl⟩
        · simp only [bind_ok, pure_ok] at hreduced
          obtain ⟨working, -, rfl⟩ := hreduced
          refine ⟨setCapital_same _ ?_, rfl⟩
          rw [StrategyCapital.get?_reserved_reduce _ (hown ▸ hk), capitalOf_of_get? hget]
    have hboth := hcut.trans hcapital
    refine ⟨?_, ⟨hboth.reservation, Dict.get?_set_of_ne _ _ hk, hboth.capital, hboth.budget,
      hboth.recorded⟩, hhistory.trans hcutHistory⟩
    refine Register.get?_put_of_ne _ ?_
    change orderId ≠ o.orderId
    exact hown ▸ hk
  · cases h

end

end PipelineState

end AlphaLab
