/-
  What the reservation ledger keeps of the orders, and what each operation makes of it.

  * `LedgerSound` is what the ledger promises between batches: its total is the
    sum of the reservations, every entry is an open order's, every open order has
    its contributions, and what was released is gone;
  * `PipelineCall.SumsExact`: no sum a call forms in the ledger needs more digits
    than the context has;
  * `LedgerKept` is what holds while a batch is routed too; `LedgerKept.retire`,
    `.consume`, `.report` and `.reduce` are what an order's end, an execution, a
    fill and an amendment keep of it.
-/
import AlphaLab.Runtime.PipelineCalls

namespace AlphaLab

open Fallible

/-! ## Sums that are exact -/

def ExactReleases (total : Decimal) : List Decimal → Prop
  | [] => True
  | amount :: amounts => Exact (total - amount) ∧ ExactReleases (total - amount) amounts

def ExactSums (total : Decimal) : List Decimal → Prop
  | [] => True
  | amount :: amounts => Exact (total + amount) ∧ ExactSums (total + amount) amounts

instance decidableExactReleases (total : Decimal) :
    (amounts : List Decimal) → Decidable (ExactReleases total amounts)
  | [] => isTrue trivial
  | amount :: amounts =>
    have := decidableExactReleases (total - amount) amounts
    inferInstanceAs (Decidable (_ ∧ _))

instance decidableExactSums (total : Decimal) :
    (amounts : List Decimal) → Decidable (ExactSums total amounts)
  | [] => isTrue trivial
  | amount :: amounts =>
    have := decidableExactSums (total + amount) amounts
    inferInstanceAs (Decidable (_ ∧ _))

def AllocationState.reserved (a : AllocationState) (orderId : String) : List Decimal :=
  (a.reservations.get? orderId).toList

def PipelineState.reservedIn (s : PipelineState) (assetId : String) : List Decimal :=
  (s.orders.workingOrdersFor assetId).flatMap s.allocation.reserved

/-- What a fill consumes of a reservation, and what it leaves, come out exactly; so
    does what is released of an order the fill ends. -/
def FillExact (c : PipelineConfig) (rates : FxRates) (s : PipelineState) (orderId : String)
    (report : ExecutionReport) : Prop :=
  ∀ held ∈ s.allocation.reserved orderId, ∀ notional, executedNotional c rates report = .ok notional →
    Exact (held - min held notional) ∧
      Exact (s.allocation.notionalAllocated - min held notional) ∧
      Exact (s.allocation.notionalAllocated - held)

/-- What an order cut in place keeps of its reservation comes out exactly, and so does
    the total. -/
def ReduceExact (s : PipelineState) (orderId : String) (remaining : Decimal) : Prop :=
  ∀ held ∈ s.allocation.reserved orderId, ∀ order, s.orders.get? orderId = some order →
    order.remainingQuantity ≠ 0 → ∀ contribution,
    s.allocation.contributionsFor orderId = [contribution] →
    let kept := s.reservationKept order (if 0 < contribution.quantity then 1 else -1) remaining held
    Exact (held - kept) ∧ Exact (s.allocation.notionalAllocated - (held - kept))

/-- **No sum a call forms in the ledger needs more digits than the context has.** -/
def PipelineCall.SumsExact (c : PipelineConfig) (s : RoutingState) : PipelineCall → Prop
  | .allocate batch =>
    let amounts := (batchOrders s.pipeline.allocation batch).map (·.commitment)
    ExactSums 0 amounts ∧ Exact (s.pipeline.allocation.notionalAllocated + amounts.sum)
  | .drop _ => ∀ request ∈ s.pending.head?,
    ExactReleases s.pipeline.allocation.notionalAllocated
      (s.pipeline.allocation.reserved request.orderId)
  | .finish orderId _ _ | .outcome orderId _ _ =>
    ExactReleases s.pipeline.allocation.notionalAllocated (s.pipeline.allocation.reserved orderId)
  | .fill orderId rates report | .venueReport orderId rates report =>
    FillExact c rates s.pipeline orderId { report with orderId := orderId }
  | .reduce orderId remaining _ => ReduceExact s.pipeline orderId remaining
  | .split sp _ =>
    ExactReleases s.pipeline.allocation.notionalAllocated (s.pipeline.reservedIn sp.assetId)
  | .exchange _ request => ExactReleases s.pipeline.allocation.notionalAllocated
    (s.pipeline.reservedIn request.exchange.assetId)
  | .place .. | .trigger .. | .replacementRefused .. | .book .. => True

def PipelineCall.NamedAnew (s : RoutingState) : PipelineCall → Prop
  | .allocate batch => Function.Injective batch.newId ∧
    ∀ n, batch.newId n ∉ s.pipeline.allocation.history.map (·.orderId)
  | _ => True

def AllocationState.reservedTotal (a : AllocationState) : Decimal :=
  a.reservations.sum fun _ amount => amount

/-- **The reservation ledger holds exactly what open orders commit.** -/
structure LedgerSound (s : PipelineState) : Prop where
  total : s.allocation.notionalAllocated = s.allocation.reservedTotal
  nonneg : 0 ≤ s.allocation.notionalAllocated
  reserved : ∀ orderId amount, s.allocation.reservations.get? orderId = some amount →
    ∃ o, s.orders.get? orderId = some o ∧ o.isOpen = true
  contributed : ∀ orderId contributions,
    s.allocation.contributions.get? orderId = some contributions →
    ∃ o, s.orders.get? orderId = some o ∧ o.isOpen = true
  kept : ∀ orderId o, s.orders.get? orderId = some o → o.isOpen = true →
    ∃ contributions, s.allocation.contributions.get? orderId = some contributions
  releasedOnce : ∀ orderId, releases s.allocation.events orderId ≤ 1
  releasedGone : ∀ orderId, releases s.allocation.events orderId = 1 →
    s.allocation.reservations.get? orderId = none
  flat : (∀ orderId o, s.orders.get? orderId = some o → o.isOpen = false) →
    s.allocation.notionalAllocated = 0

/-- `ExecutionPipelineState` of a run that starts: no order, nothing allocated. -/
def RoutingState.initial (budget : CapitalBudget) (portfolio : PortfolioState)
    (marketPrices : Dict String Decimal) : RoutingState where
  pipeline := {
    orders := Register.empty
    allocation := AllocationState.initial budget
    portfolio := portfolio
    marketPrices := marketPrices }

/-! ## The invariant -/

/-- What the ledger keeps of one order, which may be a request still to be routed. -/
structure EntryKept (s : PipelineState) (pending : Prop) (orderId : String) : Prop where
  amount : ∀ amount, s.allocation.reservations.get? orderId = some amount →
    0 ≤ amount ∧ ∃ contributions, s.allocation.contributions.get? orderId = some contributions
  entry : ∀ contributions, s.allocation.contributions.get? orderId = some contributions →
    (∃ o, s.orders.get? orderId = some o ∧ o.isOpen = true) ∨ pending
  kept : ∀ o, s.orders.get? orderId = some o → o.isOpen = true →
    ∃ contributions, s.allocation.contributions.get? orderId = some contributions
  placed : ∀ o, s.orders.get? orderId = some o →
    orderId ∈ s.allocation.history.map (·.orderId) ∧ ¬ pending
  requested : pending → orderId ∈ s.allocation.history.map (·.orderId) ∧
    ∃ contributions, s.allocation.contributions.get? orderId = some contributions
  releasedOnce : releases s.allocation.events orderId ≤ 1
  released : releases s.allocation.events orderId = 1 →
    s.allocation.contributions.get? orderId = none ∧
      orderId ∈ s.allocation.history.map (·.orderId)

/-- What the run keeps while a batch is routed: every entry is an open order's, or that
    of a request still to be routed. -/
structure LedgerKept (s : RoutingState) : Prop where
  total : s.pipeline.allocation.notionalAllocated = s.pipeline.allocation.reservedTotal
  digits : Exact s.pipeline.allocation.notionalAllocated
  named : (s.pending.map (·.orderId)).Nodup
  entries : ∀ orderId, EntryKept s.pipeline (orderId ∈ s.pending.map (·.orderId)) orderId

section
variable {s : RoutingState} {t : PipelineState} {orderId : String}

theorem EntryKept.congr {u : PipelineState} {pending : Prop} (h : EntryKept u pending orderId)
    (horders : t.orders.get? orderId = u.orders.get? orderId)
    (hreservations : t.allocation.reservations.get? orderId =
      u.allocation.reservations.get? orderId)
    (hcontributions : t.allocation.contributions.get? orderId =
      u.allocation.contributions.get? orderId)
    (hhistory : t.allocation.history = u.allocation.history)
    (hreleases : releases t.allocation.events orderId = releases u.allocation.events orderId) :
    EntryKept t pending orderId := by
  obtain ⟨hamount, hentry, hkept, hplaced, hrequested, honce, hreleased⟩ := h
  constructor
  · rwa [hreservations, hcontributions]
  · rwa [hcontributions, horders]
  · rwa [horders, hcontributions]
  · rwa [horders, hhistory]
  · rwa [hhistory, hcontributions]
  · rwa [hreleases]
  · rwa [hreleases, hcontributions, hhistory]

/-- Where the entries and the orders stay, so does what is kept, whatever else is
    logged. -/
theorem LedgerKept.of_logged (hs : LedgerKept s) (horders : t.orders = s.pipeline.orders)
    (hreservations : t.allocation.reservations = s.pipeline.allocation.reservations)
    (hcontributions : t.allocation.contributions = s.pipeline.allocation.contributions)
    (hnotional : t.allocation.notionalAllocated = s.pipeline.allocation.notionalAllocated)
    (hhistory : t.allocation.history = s.pipeline.allocation.history)
    {more : List AllocationEvent} (hmore : ReleasesNothing more)
    (hevents : t.allocation.events = s.pipeline.allocation.events ++ more) :
    LedgerKept ⟨t, s.pending⟩ := by
  refine ⟨?_, ?_, hs.named, ?_⟩
  · rw [hnotional, hs.total, AllocationState.reservedTotal, AllocationState.reservedTotal,
      hreservations]
  · rw [hnotional]
    exact hs.digits
  · intro k
    refine (hs.entries k).congr ?_ ?_ ?_ hhistory ?_
    · rw [horders]
    · rw [hreservations]
    · rw [hcontributions]
    · rw [hevents]
      exact releases_append _ hmore k

theorem LedgerKept.of_entriesKept (hs : LedgerKept s) (horders : t.orders = s.pipeline.orders)
    (h : EntriesKept s.pipeline.allocation t.allocation) : LedgerKept ⟨t, s.pending⟩ := by
  have hnothing : ReleasesNothing [] := fun _ he => by cases he
  refine hs.of_logged horders h.reservations h.contributions h.notionalAllocated h.history
    hnothing ?_
  rw [h.events, List.append_nil]

variable (orderId) in
/-- **One order moved**: what is kept of the others stays. -/
theorem LedgerKept.of_beside (hs : LedgerKept s) {pending : List OrderRequest}
    (hbeside : PipelineState.Beside orderId s.pipeline t)
    (htotal : t.allocation.notionalAllocated = t.allocation.reservedTotal)
    (hdigits : Exact t.allocation.notionalAllocated)
    (hnamed : (pending.map (·.orderId)).Nodup)
    (hrest : ∀ k, k ≠ orderId →
      (k ∈ pending.map (·.orderId) ↔ k ∈ s.pending.map (·.orderId)))
    (hentry : EntryKept t (orderId ∈ pending.map (·.orderId)) orderId)
    (hothers : ∀ k, k ≠ orderId →
      releases t.allocation.events k = releases s.pipeline.allocation.events k) :
    LedgerKept ⟨t, pending⟩ := by
  refine ⟨htotal, hdigits, hnamed, ?_⟩
  intro k
  by_cases hk : k = orderId
  · subst hk
    exact hentry
  · simp only [hrest k hk]
    exact (hs.entries k).congr (hbeside.orders k hk) (hbeside.reservations k hk)
      (hbeside.contributions k hk) hbeside.history (hothers k hk)

variable {o : Order}

theorem LedgerKept.notPending (hs : LedgerKept s) (ho : s.pipeline.orders.get? orderId = some o) :
    orderId ∉ s.pending.map (·.orderId) :=
  ((hs.entries orderId).placed o ho).2

theorem releases_retired (s : PipelineState) (orderId : String) (timestamp : Instant)
    (k : String) :
    releases (s.retireDroppedRequest orderId timestamp).allocation.events k =
      releases s.allocation.events k +
        if k = orderId then (s.allocation.reserved orderId).length else 0 := by
  obtain ⟨-, -, -, -, -, -, hevents⟩ := s.retireDroppedRequest_entries orderId timestamp
  rw [hevents, releases, List.countP_append, releases, AllocationState.reserved]
  cases s.allocation.reservations.get? orderId with
  | none => simp
  | some amount =>
    by_cases hk : k = orderId
    · simp [AllocationEvent.isRelease, hk]
    · simp [AllocationEvent.isRelease, hk, Ne.symm hk]

/-- What retiring an order leaves of the total, where the sum is exact. -/
theorem retired_total (s : PipelineState) (orderId : String) (timestamp : Instant)
    (htotal : s.allocation.notionalAllocated = s.allocation.reservedTotal)
    (hdigits : Exact s.allocation.notionalAllocated)
    (hexact : ExactReleases s.allocation.notionalAllocated (s.allocation.reserved orderId)) :
    (s.retireDroppedRequest orderId timestamp).allocation.notionalAllocated =
        s.allocation.notionalAllocated - (s.allocation.reserved orderId).sum ∧
      (s.retireDroppedRequest orderId timestamp).allocation.notionalAllocated =
        (s.retireDroppedRequest orderId timestamp).allocation.reservedTotal ∧
      Exact (s.retireDroppedRequest orderId timestamp).allocation.notionalAllocated := by
  obtain ⟨hr, -, -, -, -, hn, -⟩ := s.retireDroppedRequest_entries orderId timestamp
  rw [AllocationState.reservedTotal, hr, Dict.sum_delete, hn, Dict.sumAt]
  rw [AllocationState.reserved] at hexact ⊢
  cases hget : s.allocation.reservations.get? orderId with
  | none =>
    refine ⟨by simp, ?_, hdigits⟩
    simpa [AllocationState.reservedTotal] using htotal
  | some amount =>
    rw [hget] at hexact
    have hsum : subtract s.allocation.notionalAllocated amount =
        s.allocation.notionalAllocated - amount := hexact.1
    refine ⟨by simpa using hsum, ?_, ?_⟩
    · rw [Option.elim_some, hsum, htotal]
      rfl
    · rw [Option.elim_some, hsum]
      exact hexact.1

variable {timestamp : Instant}

/-- **An order retired is gone from the ledgers, and so it is where it is closed or no
    order at all.** -/
theorem LedgerKept.retire (hs : LedgerKept s) {pending : List OrderRequest} (hexact : ExactReleases
      s.pipeline.allocation.notionalAllocated (s.pipeline.allocation.reserved orderId))
    (hbeside : PipelineState.Beside orderId s.pipeline t)
    (hallocation : t.allocation = s.pipeline.allocation) (hclosed : ∀ o, t.orders.get? orderId =
      some o → o.isOpen = false ∧ orderId ∈ s.pipeline.allocation.history.map (·.orderId))
    (hnamed : (pending.map (·.orderId)).Nodup) (hgone : orderId ∉ pending.map (·.orderId))
    (hrest : ∀ k, k ≠ orderId → (k ∈ pending.map (·.orderId) ↔ k ∈ s.pending.map (·.orderId))) :
    LedgerKept ⟨t.retireDroppedRequest orderId timestamp, pending⟩ := by
  obtain ⟨hamount, hentry, hkept, hplaced, hrequested, honce, hreleased⟩ := hs.entries orderId
  obtain ⟨-, htotal, hdigits⟩ := retired_total t orderId timestamp
    (by rw [hallocation, hs.total]) (by rw [hallocation]; exact hs.digits)
    (by rw [hallocation]; exact hexact)
  have hfreed := t.retireDroppedRequest_freed orderId timestamp
  have hleft := t.retireDroppedRequest_beside orderId timestamp
  have hhistory : (t.retireDroppedRequest orderId timestamp).allocation.history =
      s.pipeline.allocation.history := hleft.history.trans (by rw [hallocation])
  have hothers : ∀ k, k ≠ orderId →
      releases (t.retireDroppedRequest orderId timestamp).allocation.events k =
        releases s.pipeline.allocation.events k := by
    intro k hk
    rw [releases_retired, if_neg hk, add_zero, hallocation]
  refine hs.of_beside orderId (hbeside.trans hleft) htotal hdigits hnamed hrest ?_ hothers
  refine ⟨?_, ?_, ?_, ?_, fun h => absurd h hgone, ?_, ?_⟩
  · intro amount h
    rw [hfreed.1] at h
    cases h
  · intro contributions h
    rw [hfreed.2] at h
    cases h
  · intro o ho hopen
    rw [(hclosed o ho).1] at hopen
    cases hopen
  · intro o ho
    rw [hhistory]
    exact ⟨(hclosed o ho).2, hgone⟩
  · rw [releases_retired, hallocation, if_pos rfl, AllocationState.reserved]
    cases hget : s.pipeline.allocation.reservations.get? orderId with
    | none => simpa using honce
    | some amount =>
      -- what is reserved was never released before
      obtain ⟨contributions, hcontributions⟩ := (hamount amount hget).2
      have hnever : releases s.pipeline.allocation.events orderId ≠ 1 := by
        intro hone
        rw [(hreleased hone).1] at hcontributions
        cases hcontributions
      simp only [Option.toList_some, List.length_singleton]
      omega
  · intro hone
    refine ⟨hfreed.2, ?_⟩
    rw [hhistory]
    rw [releases_retired, hallocation, if_pos rfl, AllocationState.reserved] at hone
    cases hget : s.pipeline.allocation.reservations.get? orderId with
    | none =>
      rw [hget] at hone
      exact (hreleased (by simpa using hone)).2
    | some amount =>
      obtain ⟨contributions, hcontributions⟩ := (hamount amount hget).2
      rcases hentry contributions hcontributions with ⟨o, ho, -⟩ | hpending
      · exact (hplaced o ho).1
      · exact (hrequested hpending).1

/-- **An order ended without trading any more.** -/
theorem LedgerKept.ended {ending : OrderEnding} (hs : LedgerKept s) (hexact : ExactReleases
      s.pipeline.allocation.notionalAllocated (s.pipeline.allocation.reserved orderId))
    (h : s.pipeline.ended orderId ending timestamp = .ok t) : LedgerKept ⟨t, s.pending⟩ := by
  obtain ⟨o, ho, -, rfl⟩ := PipelineState.ended_ok h
  have hput : PipelineState.Beside orderId s.pipeline
      (s.pipeline.putOrder { o with status := ending.status, updatedAt := timestamp }) :=
    PipelineState.put_beside ho rfl
  refine hs.retire hexact hput rfl ?_ hs.named (hs.notPending ho) fun _ _ => Iff.rfl
  intro o' ho'
  obtain rfl := Register.key_of_get? ho
  obtain rfl : { o with status := ending.status, updatedAt := timestamp } = o' :=
    Option.some.inj ((Register.get?_put_self s.pipeline.orders _).symm.trans ho')
  exact ⟨by simp [Order.isOpen, OrderEnding.status_isTerminal],
    ((hs.entries o.orderId).placed o ho).1⟩

/-- An execution leaves the total with what it leaves of the reservation, where the
    sums are exact. -/
theorem consumed_total {a : AllocationState} (orderId : String) (notional : Decimal)
    (timestamp : Instant) (htotal : a.notionalAllocated = a.reservedTotal) (hdigits : Exact a.notionalAllocated)
    (hexact : ∀ held ∈ a.reserved orderId, Exact (held - min held notional) ∧
      Exact (a.notionalAllocated - min held notional)) :
    (a.applyExecution orderId notional timestamp).notionalAllocated =
        (a.applyExecution orderId notional timestamp).reservedTotal ∧
      Exact (a.applyExecution orderId notional timestamp).notionalAllocated ∧
      (∀ amount,
        (a.applyExecution orderId notional timestamp).reservations.get? orderId = some amount →
          ∃ held ∈ a.reserved orderId, amount = held - min held notional ∧
            (a.applyExecution orderId notional timestamp).notionalAllocated =
              a.notionalAllocated - min held notional) := by
  unfold AllocationState.applyExecution AllocationState.reservedTotal
  dsimp only
  cases hget : a.reservations.get? orderId with
  | none =>
    have hsame : subtract a.notionalAllocated 0 = a.notionalAllocated := by
      rw [subtract, sub_zero]
      exact hdigits
    rw [Option.elim_none, hsame]
    refine ⟨htotal, hdigits, ?_⟩
    intro amount hamount
    dsimp only at hamount
    rw [hget] at hamount
    cases hamount
  | some held =>
    have hmem : held ∈ a.reserved orderId := by simp [AllocationState.reserved, hget]
    obtain ⟨hleft, hmoved⟩ := hexact held hmem
    have hsub : subtract held (min held notional) = held - min held notional := hleft
    have hnotional : subtract a.notionalAllocated (min held notional) =
        a.notionalAllocated - min held notional := hmoved
    have hat : a.reservations.sumAt (fun _ amount => amount) orderId = held := by
      rw [Dict.sumAt, hget]
      rfl
    simp only [Option.elim_some, hsub, hnotional]
    split_ifs with hspent
    · -- nothing is left of the reservation
      have hall : min held notional = held := by
        refine le_antisymm (min_le_left _ _) ?_
        linarith
      refine ⟨?_, hmoved, ?_⟩
      · rw [Dict.sum_delete, hat, hall, htotal]
        rfl
      · intro amount hamount
        rw [Dict.get?_delete_self] at hamount
        cases hamount
    · refine ⟨?_, hmoved, ?_⟩
      · rw [Dict.sum_set, hat, htotal, AllocationState.reservedTotal]
        ring
      · intro amount hamount
        rw [Dict.get?_set_self] at hamount
        exact ⟨held, hmem, (Option.some.inj hamount).symm, rfl⟩

/-- What an execution consumes of an order's reservation. -/
theorem LedgerKept.consume {recorded : AllocationState} {notional : Decimal} (hs : LedgerKept s)
    (hrecorded : EntriesKept s.pipeline.allocation recorded) (hexact : ∀ held ∈
      s.pipeline.allocation.reserved orderId, Exact (held - min held notional) ∧ Exact
      (s.pipeline.allocation.notionalAllocated - min held notional)) :
    LedgerKept ⟨s.pipeline.withAllocation (recorded.applyExecution orderId notional timestamp),
      s.pending⟩ := by
  obtain ⟨htotal, hdigits, hleft⟩ := consumed_total (a := recorded) orderId notional timestamp
    (by rw [hrecorded.notionalAllocated, hs.total, AllocationState.reservedTotal,
      AllocationState.reservedTotal, hrecorded.reservations])
    (by rw [hrecorded.notionalAllocated]; exact hs.digits)
    (by rw [AllocationState.reserved, hrecorded.reservations, hrecorded.notionalAllocated]
        exact hexact)
  obtain ⟨hc, hb, hh, hr⟩ :=
    PipelineState.applyExecution_beside recorded orderId notional timestamp
  have hbeside : PipelineState.Beside orderId s.pipeline
      (s.pipeline.withAllocation (recorded.applyExecution orderId notional timestamp)) := by
    refine ⟨fun _ _ => rfl, ?_, ?_, hb.trans hrecorded.budget, hh.trans hrecorded.history, rfl⟩
    · intro k hk
      exact (hr k hk).trans (congrArg (·.get? k) hrecorded.reservations)
    · intro k _
      exact congrArg (·.get? k) (hc.trans hrecorded.contributions)
  have hcontributions : (recorded.applyExecution orderId notional timestamp).contributions =
      s.pipeline.allocation.contributions := hc.trans hrecorded.contributions
  have hreleases : ∀ k, releases (recorded.applyExecution orderId notional timestamp).events k =
      releases s.pipeline.allocation.events k := by
    intro k
    rw [← hrecorded.events]
    exact releases_append _ (releasesNothing_singleton fun _ => rfl) k
  obtain ⟨hamount, hentry, hkept, hplaced, hrequested, honce, hreleased⟩ := hs.entries orderId
  refine hs.of_beside orderId hbeside htotal hdigits hs.named (fun _ _ => Iff.rfl) ?_
    fun k _ => hreleases k
  refine ⟨?_, ?_, ?_, ?_, ?_, ?_, ?_⟩
  · intro amount h
    obtain ⟨held, hheld, rfl, -⟩ := hleft amount h
    rw [AllocationState.reserved, Option.mem_toList, hrecorded.reservations] at hheld
    refine ⟨sub_nonneg.mpr (min_le_left _ _), ?_⟩
    obtain ⟨contributions, hget⟩ := (hamount held hheld).2
    exact ⟨contributions, (congrArg (·.get? orderId) hcontributions).trans hget⟩
  · intro contributions h
    exact hentry contributions ((congrArg (·.get? orderId) hcontributions).symm.trans h)
  · intro o ho hopen
    obtain ⟨contributions, hget⟩ := hkept o ho hopen
    exact ⟨contributions, (congrArg (·.get? orderId) hcontributions).trans hget⟩
  · intro o ho
    rw [hbeside.history]
    exact hplaced o ho
  · intro hpending
    rw [hbeside.history]
    obtain ⟨hmem, contributions, hget⟩ := hrequested hpending
    exact ⟨hmem, contributions, (congrArg (·.get? orderId) hcontributions).trans hget⟩
  · exact (hreleases orderId).trans_le honce
  · intro hone
    rw [hbeside.history]
    obtain ⟨hnone, hmem⟩ := hreleased ((hreleases orderId).symm.trans hone)
    exact ⟨(congrArg (·.get? orderId) hcontributions).trans hnone, hmem⟩

theorem LedgerKept.put {o o' : Order} (hs : LedgerKept s)
    (ho : s.pipeline.orders.get? orderId = some o) (hid : o'.orderId = o.orderId)
    (hopen : o'.isOpen = o.isOpen) (horders : t.orders = s.pipeline.orders.put o')
    (hallocation : t.allocation = s.pipeline.allocation) : LedgerKept ⟨t, s.pending⟩ := by
  have hkey := Register.key_of_get? ho
  have hget : t.orders.get? orderId = some o' := by
    rw [horders, ← hkey, ← hid]
    exact Register.get?_put_self _ _
  refine ⟨?_, ?_, hs.named, ?_⟩
  · rw [hallocation]
    exact hs.total
  · rw [hallocation]
    exact hs.digits
  · intro k
    by_cases hk : k = orderId
    · subst hk
      obtain ⟨hamount, hentry, hkept, hplaced, hrequested, honce, hreleased⟩ := hs.entries k
      rw [← hallocation] at hamount hentry hkept hplaced hrequested honce hreleased
      refine ⟨hamount, ?_, ?_, fun _ _ => hplaced o ho, hrequested, honce, hreleased⟩
      · intro contributions hget'
        rcases hentry contributions hget' with ⟨o₁, ho₁, hopen₁⟩ | hpending
        · obtain rfl := Option.some.inj (ho.symm.trans ho₁)
          exact Or.inl ⟨o', hget, hopen.trans hopen₁⟩
        · exact Or.inr hpending
      · intro o₁ ho₁ hopen₁
        obtain rfl := Option.some.inj (hget.symm.trans ho₁)
        exact hkept o ho (hopen.symm.trans hopen₁)
    · have hother : t.orders.get? k = s.pipeline.orders.get? k := by
        rw [horders]
        refine Register.get?_put_of_ne _ ?_
        rwa [hid, hkey]
      refine (hs.entries k).congr hother ?_ ?_ ?_ ?_ <;> rw [hallocation]

/-- **An order filled at an event**, its sums exact. -/
theorem LedgerKept.report {c : PipelineConfig} {rates : FxRates} {order : Order}
    {report : ExecutionReport} (hs : LedgerKept s) (hid : order.orderId = report.orderId)
    (hexact : FillExact c rates s.pipeline report.orderId report)
    (h : s.pipeline.applyReport c rates order report = .ok t) : LedgerKept ⟨t, s.pending⟩ := by
  obtain ⟨filled, booked, notional, recorded, hfilled, hbooked, hnotional, hrecorded, rfl⟩ :=
    PipelineState.applyReport_ok.mp h
  rw [hid] at hfilled ⊢
  obtain ⟨-, f, portfolio, -, -, -, rfl⟩ := PipelineState.reportToPortfolio_ok hbooked
  have hallocation : filled.allocation = s.pipeline.allocation := by
    rcases PipelineState.reportToOms_ok hfilled with ⟨rfl, -⟩ | ⟨o, o', -, -, rfl⟩ <;> rfl
  have hkept : EntriesKept s.pipeline.allocation recorded := by
    rw [← hallocation]
    exact recordFill_kept hrecorded
  have hconsumed : LedgerKept ⟨s.pipeline.withAllocation
      (recorded.applyExecution report.orderId notional report.timestamp), s.pending⟩ :=
    hs.consume hkept fun held hheld =>
      ⟨(hexact held hheld notional hnotional).1, (hexact held hheld notional hnotional).2.1⟩
  -- what is left of the reservation is released exactly
  have hleft : ExactReleases
      (recorded.applyExecution report.orderId notional report.timestamp).notionalAllocated
      ((recorded.applyExecution report.orderId notional report.timestamp).reserved
        report.orderId) := by
    obtain ⟨-, -, hleft⟩ := consumed_total (a := recorded) report.orderId notional
      report.timestamp
      (by rw [hkept.notionalAllocated, hs.total, AllocationState.reservedTotal,
        AllocationState.reservedTotal, hkept.reservations])
      (by rw [hkept.notionalAllocated]; exact hs.digits)
      (by
        rw [AllocationState.reserved, hkept.reservations, hkept.notionalAllocated]
        exact fun held hheld => ⟨(hexact held hheld notional hnotional).1,
          (hexact held hheld notional hnotional).2.1⟩)
    rw [AllocationState.reserved]
    cases hget : (recorded.applyExecution report.orderId notional
        report.timestamp).reservations.get? report.orderId with
    | none => trivial
    | some amount =>
      obtain ⟨held, hheld, rfl, hn⟩ := hleft amount hget
      rw [AllocationState.reserved, hkept.reservations] at hheld
      rw [hkept.notionalAllocated] at hn
      refine ⟨?_, trivial⟩
      rw [hn, sub_sub_sub_cancel_right]
      exact (hexact held hheld notional hnotional).2.2
  generalize recorded.applyExecution report.orderId notional report.timestamp = exec
    at hconsumed hleft ⊢
  rcases PipelineState.reportToOms_ok hfilled with ⟨rfl, -⟩ | ⟨o, o', ho, hmove, rfl⟩
  · -- the order did not move
    have hfree : LedgerKept ⟨PipelineState.withAllocation
        { s.pipeline with portfolio := portfolio } exec, s.pending⟩ :=
      hconsumed.of_entriesKept rfl (.refl _)
    unfold PipelineState.releaseIfTerminal
    split
    · exact hfree
    · rename_i o ho
      split_ifs with hopen
      · exact hfree
      · refine hfree.retire hleft (.refl _ _) rfl ?_ hs.named (hs.notPending ho)
          fun _ _ => Iff.rfl
        intro o' ho'
        obtain rfl := Option.some.inj (ho.symm.trans ho')
        exact ⟨by simpa using hopen, ((hfree.entries report.orderId).placed o ho).1⟩
  · have hmoved : o'.orderId = o.orderId ∧ o.isOpen = true := by
      rcases hmove with ⟨-, hfill⟩ | ⟨-, hfill⟩
      · obtain ⟨status, hnext, -, -, rfl⟩ := fill_ok.mp hfill
        exact ⟨rfl, isOpen_of_next hnext⟩
      · obtain ⟨status, hnext, -, -, rfl⟩ := partialFill_ok.mp hfill
        exact ⟨rfl, isOpen_of_next hnext⟩
    obtain ⟨hsame, hopen⟩ := hmoved
    have hput : (s.pipeline.orders.put o').get? report.orderId = some o' := by
      rw [← Register.key_of_get? ho, ← hsame]
      exact Register.get?_put_self _ _
    by_cases hopen' : o'.isOpen = true
    · rw [PipelineState.releaseIfTerminal_of_open hput hopen']
      exact hconsumed.put ho hsame (hopen'.trans hopen.symm) rfl rfl
    · rw [PipelineState.releaseIfTerminal_of_closed hput (by simpa using hopen')]
      refine hconsumed.retire hleft ?_ rfl ?_ hs.named (hs.notPending ho) fun _ _ => Iff.rfl
      · refine ⟨?_, fun _ _ => rfl, fun _ _ => rfl, rfl, rfl, rfl⟩
        intro k hk
        refine Register.get?_put_of_ne _ ?_
        rwa [hsame, Register.key_of_get? ho]
      · intro o'' ho''
        obtain rfl := Option.some.inj (hput.symm.trans ho'')
        exact ⟨by simpa using hopen', ((hconsumed.entries report.orderId).placed o ho).1⟩

theorem stillAdded_nonneg {reserved before was now : Decimal} (h : 0 ≤ reserved) :
    0 ≤ stillAdded reserved before was now addsToAccount := by
  have hadds : ∀ held delta, 0 ≤ addsToAccount held delta := fun _ _ => le_max_left _ _
  unfold stillAdded
  dsimp only
  split_ifs
  · exact inContext_nonneg (div_nonneg (multiply_nonneg h (abs_nonneg _)) (abs_nonneg _))
  · exact inContext_nonneg (div_nonneg (multiply_nonneg h (hadds _ _)) (hadds _ _))

variable {remaining : Decimal}

/-- What cutting an order in place makes of the ledgers, beside its contribution. -/
theorem reduceInPlace_ok {u : PipelineState}
    (h : u.reduceInPlace orderId remaining timestamp = .ok t) :
    ∃ o o' contribution total reduced, u.orders.get? orderId = some o ∧
      o.replace total timestamp none = .ok o' ∧
      u.allocation.contributionsFor orderId = [contribution] ∧
      EntriesKept (u.cutEntry o (if 0 < contribution.quantity then 1 else -1) remaining) reduced ∧
      ∃ contributions, t = { u with
        orders := u.orders.put o'
        allocation := { reduced with
          contributions := u.allocation.contributions.set orderId contributions } } := by
  simp only [PipelineState.reduceInPlace, bind_ok, mapError_ok, update_ok, OrderBook.find,
    orRefuse_ok] at h
  obtain ⟨o, ho, _, ⟨o₁, o', ho₁, hreplace, rfl⟩, h⟩ := h
  obtain rfl := Option.some.inj (ho.symm.trans ho₁)
  split at h
  · rename_i contribution hcontribution
    simp only [bind_ok, pure_ok] at h
    obtain ⟨reduced, hreduced, rfl⟩ := h
    refine ⟨o, o', contribution, _, reduced, ho, hreplace, hcontribution, ?_, _, rfl⟩
    unfold PipelineState.reduceCapital at hreduced
    split at hreduced
    · rw [← pure_ok.mp hreduced]
      exact .refl _
    · split at hreduced
      · rw [← pure_ok.mp hreduced]
        exact .refl _
      · simp only [bind_ok, pure_ok] at hreduced
        obtain ⟨working, -, rfl⟩ := hreduced
        exact setCapital_kept _ _
  · cases h

/-- The reservation of an order cut in place: the total moves by what it does. -/
theorem LedgerKept.cut {contribution : StrategyContribution} (hs : LedgerKept s)
    (ho : s.pipeline.orders.get? orderId = some o)
    (hcontribution : s.pipeline.allocation.contributionsFor orderId = [contribution])
    (hexact : ReduceExact s.pipeline orderId remaining) :
    LedgerKept ⟨s.pipeline.withAllocation (s.pipeline.cutEntry o
      (if 0 < contribution.quantity then 1 else -1) remaining), s.pending⟩ := by
  unfold PipelineState.cutEntry
  rw [Register.key_of_get? ho]
  have hexactly := fun reserved hreserved hremaining =>
    hexact reserved hreserved o ho hremaining contribution hcontribution
  generalize (if 0 < contribution.quantity then (1 : Decimal) else -1) = sign at hexactly ⊢
  cases hget : s.pipeline.allocation.reservations.get? orderId with
  | none => exact hs.of_entriesKept rfl (.refl _)
  | some reserved =>
    dsimp only
    split_ifs with hremaining
    · exact hs.of_entriesKept rfl (.refl _)
    · obtain ⟨hdiff, hnotional⟩ :=
        hexactly reserved (by simp [AllocationState.reserved, hget]) hremaining
      generalize hk : s.pipeline.reservationKept o sign remaining reserved = kept
        at hdiff hnotional ⊢
      have hsub : subtract reserved kept = reserved - kept := hdiff
      have hmoved : (s.pipeline.allocation.cutReservation orderId reserved kept).notionalAllocated =
          s.pipeline.allocation.notionalAllocated - (reserved - kept) := by
        rw [AllocationState.cutReservation, hsub]
        exact hnotional
      have hat : s.pipeline.allocation.reservations.sumAt (fun _ amount => amount) orderId =
          reserved := by
        rw [Dict.sumAt, hget]
        rfl
      obtain ⟨hamount, hentry, hkept, hplaced, hrequested, honce, hreleased⟩ := hs.entries orderId
      refine hs.of_beside orderId ?_ ?_ ?_ hs.named (fun _ _ => Iff.rfl) ?_
        fun _ _ => rfl
      · refine ⟨fun _ _ => rfl, fun k hk => ?_, fun _ _ => rfl, rfl, rfl, rfl⟩
        exact Dict.get?_set_of_ne _ _ hk
      · refine hmoved.trans ?_
        rw [AllocationState.reservedTotal, PipelineState.withAllocation,
          AllocationState.cutReservation]
        dsimp only
        rw [Dict.sum_set, hat, hs.total, AllocationState.reservedTotal]
        ring
      · rw [PipelineState.withAllocation, hmoved]
        exact hnotional
      · refine ⟨?_, hentry, hkept, hplaced, hrequested, honce, hreleased⟩
        intro amount h
        have hamount' : kept = amount := by
          rw [PipelineState.withAllocation, AllocationState.cutReservation] at h
          exact Option.some.inj ((Dict.get?_set_self _ _ _).symm.trans h)
        rw [← hamount', ← hk]
        exact ⟨stillAdded_nonneg (hamount reserved hget).1, (hamount reserved hget).2⟩

theorem LedgerKept.recontribute (hs : LedgerKept s) (ho : s.pipeline.orders.get? orderId = some o)
    (hopen : o.isOpen = true) (contributions : List StrategyContribution) :
    LedgerKept ⟨s.pipeline.withAllocation { s.pipeline.allocation with
      contributions := s.pipeline.allocation.contributions.set orderId contributions },
      s.pending⟩ := by
  obtain ⟨hamount, hentry, hkept, hplaced, hrequested, honce, hreleased⟩ := hs.entries orderId
  have hnew : (s.pipeline.allocation.contributions.set orderId contributions).get? orderId =
      some contributions := Dict.get?_set_self _ _ _
  refine hs.of_beside orderId ?_ hs.total hs.digits hs.named (fun _ _ => Iff.rfl) ?_
    fun _ _ => rfl
  · refine ⟨fun _ _ => rfl, fun _ _ => rfl, fun k hk => ?_, rfl, rfl, rfl⟩
    exact Dict.get?_set_of_ne _ _ hk
  · refine ⟨fun amount h => ⟨(hamount amount h).1, contributions, hnew⟩,
      fun _ _ => Or.inl ⟨o, ho, hopen⟩, fun _ _ _ => ⟨contributions, hnew⟩, hplaced,
      fun h => ⟨(hrequested h).1, contributions, hnew⟩, honce, ?_⟩
    intro hone
    obtain ⟨existing, hexisting⟩ := hkept o ho hopen
    rw [(hreleased hone).1] at hexisting
    cases hexisting

/-- **An order cut in place**, its sums exact. -/
theorem LedgerKept.reduce (hs : LedgerKept s) (hexact : ReduceExact s.pipeline orderId remaining)
    (h : s.pipeline.reduceInPlace orderId remaining timestamp = .ok t) :
    LedgerKept ⟨t, s.pending⟩ := by
  obtain ⟨o, o', contribution, total, reduced, ho, hreplace, hcontribution, hreduced,
    contributions, rfl⟩ := reduceInPlace_ok h
  obtain ⟨status, hnext, -, hsame⟩ := replace_ok.mp hreplace
  have hid : o'.orderId = o.orderId := by rw [hsame]
  have hopen := replaced_isOpen hreplace
  have hput : (s.pipeline.orders.put o').get? orderId = some o' := by
    rw [← Register.key_of_get? ho, ← hid]
    exact Register.get?_put_self _ _
  have hcut := (hs.cut ho hcontribution hexact).of_entriesKept
    (t := s.pipeline.withAllocation reduced) rfl hreduced
  have hmoved := hcut.put (t := (s.pipeline.putOrder o').withAllocation reduced) ho hid
    (hopen.trans (isOpen_of_next hnext).symm) rfl rfl
  have hrestated := hmoved.recontribute hput hopen contributions
  have hcontributions : reduced.contributions = s.pipeline.allocation.contributions := by
    rw [hreduced.contributions]
    unfold PipelineState.cutEntry
    split
    · rfl
    · split_ifs <;> rfl
  rw [← hcontributions]
  exact hrestated

end

end AlphaLab
