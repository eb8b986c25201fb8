/-
  The entries of the allocation ledgers: what they keep by order.

  * `EntriesKept`: the reservations, the contributions and their total are as
    they were.  Positions and strategies' capital move beside them
    (`recordFill_kept`, `applySplit_kept`, `applyLifecycle_kept`, …);
  * `applyExecution`, `releaseReservation` and `retireContributions` move the
    entry of one order.
-/
import AlphaLab.Allocation.Batches

namespace AlphaLab

open Fallible

/-- `t` keeps the entries of every order as `s` has them. -/
structure EntriesKept (s t : AllocationState) : Prop where
  reservations : t.reservations = s.reservations
  contributions : t.contributions = s.contributions
  notionalAllocated : t.notionalAllocated = s.notionalAllocated
  budget : t.budget = s.budget
  events : t.events = s.events
  history : t.history = s.history

namespace EntriesKept

variable {s t u : AllocationState}

theorem refl (s : AllocationState) : EntriesKept s s := ⟨rfl, rfl, rfl, rfl, rfl, rfl⟩

theorem trans (h : EntriesKept s t) (h' : EntriesKept t u) : EntriesKept s u :=
  ⟨h'.1.trans h.1, h'.2.trans h.2, h'.3.trans h.3, h'.4.trans h.4, h'.5.trans h.5, h'.6.trans h.6⟩

theorem foldl {ι : Type} {f : AllocationState → ι → AllocationState}
    (hf : ∀ s i, EntriesKept s (f s i)) (l : List ι) (s : AllocationState) :
    EntriesKept s (l.foldl f s) := by
  induction l generalizing s with
  | nil => exact refl s
  | cons i l ih => exact (hf s i).trans (ih (f s i))

end EntriesKept

section
variable {s t : AllocationState}

/-! ## Positions and capital -/

variable (orderId strategyId : String) (b : AllocationInput) (assetId : String)
  (sized : List SizedDelta) (quantity : Decimal)

theorem setPosition_kept :
    EntriesKept s (s.setPosition strategyId assetId quantity) := ⟨rfl, rfl, rfl, rfl, rfl, rfl⟩

theorem settlePosition_kept :
    EntriesKept s (s.settlePosition strategyId assetId quantity) := ⟨rfl, rfl, rfl, rfl, rfl, rfl⟩

theorem setCapital_kept (capital : StrategyCapital) :
    EntriesKept s (s.setCapital strategyId capital) := ⟨rfl, rfl, rfl, rfl, rfl, rfl⟩

theorem moveCapital_kept (held quantity unitValue : Decimal) :
    EntriesKept s (s.moveCapital strategyId assetId held quantity unitValue) := by
  unfold AllocationState.moveCapital
  split
  · exact .refl s
  · exact setCapital_kept _ _

theorem bookShare_kept (unitValue : Option Decimal) (part : String × Decimal) :
    EntriesKept s (s.bookShare orderId assetId unitValue part) := by
  unfold AllocationState.bookShare
  dsimp only
  split
  · exact (setPosition_kept _ _ _).trans (setCapital_kept _ _)
  · exact setPosition_kept _ _ _

theorem recordFill_kept {orderId assetId : String} {signed : Decimal} {notional : Option Decimal}
    (h : s.recordFill orderId assetId signed notional = .ok t) : EntriesKept s t := by
  unfold AllocationState.recordFill at h
  dsimp only at h
  split_ifs at h
  · obtain rfl := pure_ok.mp h
    exact .refl s
  · simp only [bind_ok, orRefuse_ok, pure_ok] at h
    obtain ⟨parts, _, rfl⟩ := h
    exact .foldl (fun s part => bookShare_kept orderId assetId _ part) parts s

theorem applySplit_kept (ratio : Decimal) : EntriesKept s (s.applySplit assetId ratio) := by
  refine EntriesKept.foldl (fun s e => ?_) _ s
  split
  · exact .refl s
  · exact setPosition_kept _ _ _

theorem settleAsset_kept : EntriesKept s (s.settleAsset assetId).1 :=
  .foldl (fun _ _ => (settlePosition_kept _ _ _).trans (moveCapital_kept _ _ _ _ _)) _ s

theorem applyLifecycle_kept (closed : List (String × Decimal))
    (delivered : Option (String × List (String × Decimal) × Decimal)) :
    EntriesKept s (s.applyLifecycle assetId closed delivered) := by
  unfold AllocationState.applyLifecycle
  have hclosed : EntriesKept s (closed.foldl (fun s e => s.closeUnits assetId e) s) :=
    .foldl (fun _ _ => (settlePosition_kept _ _ _).trans (moveCapital_kept _ _ _ _ _)) _ s
  split_ifs
  · exact .refl s
  · dsimp only
    split
    · exact hclosed
    · refine hclosed.trans (.foldl (fun _ _ => ?_) _ _)
      exact (settlePosition_kept _ _ _).trans (moveCapital_kept _ _ _ _ _)

theorem releaseReservation_ok {orderId : String} {timestamp : Instant} :
    s.releaseReservation orderId timestamp = .ok t ↔
      ∃ released, s.reservations.get? orderId = some released ∧ t = { s with
        notionalAllocated := subtract s.notionalAllocated released
        reservations := s.reservations.delete orderId
        events := s.events ++ [.reservationReleased timestamp orderId released] } := by
  simp only [AllocationState.releaseReservation, bind_ok, orRefuse_ok, pure_ok]
  exact exists_congr fun released => and_congr_right fun _ => eq_comm

/-- **An order's part in the ledgers ended**: its contributions go, and nothing else
    that is kept by order. -/
theorem retireContributions_entries :
    (s.retireContributions orderId).contributions = s.contributions.delete orderId ∧
      (s.retireContributions orderId).reservations = s.reservations ∧
      (s.retireContributions orderId).notionalAllocated = s.notionalAllocated ∧
      (s.retireContributions orderId).budget = s.budget ∧
      (s.retireContributions orderId).events = s.events ∧
      (s.retireContributions orderId).history = s.history ∧
      (s.retireContributions orderId).strategyPositions = s.strategyPositions := by
  unfold AllocationState.retireContributions
  cases hget : s.contributions.get? orderId with
  | none =>
    exact ⟨(Dict.delete_of_none hget).symm, rfl, rfl, rfl, rfl, rfl, rfl⟩
  | some contributions =>
    have hfree : ∀ (s : AllocationState) (strategyId : String),
        EntriesKept s (s.freeCapital orderId strategyId) ∧
          (s.freeCapital orderId strategyId).strategyPositions = s.strategyPositions := by
      intro s strategyId
      unfold AllocationState.freeCapital
      split
      · exact ⟨.refl s, rfl⟩
      · exact ⟨setCapital_kept _ _, rfl⟩
    have hkept := EntriesKept.foldl
      (fun s (c : StrategyContribution) => (hfree s c.strategyId).1) contributions s
    have hpositions : ∀ (l : List StrategyContribution) (s : AllocationState),
        (l.foldl (fun s c => s.freeCapital orderId c.strategyId) s).strategyPositions =
          s.strategyPositions := by
      intro l
      induction l with
      | nil => intro s; rfl
      | cons c l ih =>
        intro s
        rw [List.foldl_cons, ih, (hfree s c.strategyId).2]
    exact ⟨rfl, hkept.reservations, hkept.notionalAllocated, hkept.budget, hkept.events,
      hkept.history, hpositions contributions s⟩

/-! ## Batches -/

theorem reserveCapital_entries (commitments : Dict CommitmentKey Decimal)
    (request : OrderRequest) (c : StrategyContribution) :
    EntriesKept s (reserveCapital commitments request s c) := by
  unfold reserveCapital
  split
  · exact .refl s
  · exact setCapital_kept _ _

theorem reserveOrder_entries (commitments : Dict CommitmentKey Decimal) (e : EmittedOrder) :
    EntriesKept { s with
      reservations := s.reservations.set e.request.orderId e.commitment
      contributions := s.contributions.set e.request.orderId e.request.contributions }
      (reserveOrder commitments s e) :=
  .foldl (fun _ c => reserveCapital_entries commitments e.request c) _ _

theorem reserveOrders_entries (commitments : Dict CommitmentKey Decimal)
    (emitted : List EmittedOrder) (s : AllocationState) :
    EntriesKept { s with
      reservations := s.reservations.setAll
        (emitted.map fun e => (e.request.orderId, e.commitment))
      contributions := s.contributions.setAll
        (emitted.map fun e => (e.request.orderId, e.request.contributions)) }
      (emitted.foldl (reserveOrder commitments) s) := by
  induction emitted generalizing s with
  | nil => exact .refl s
  | cons e emitted ih =>
    have hfirst := reserveOrder_entries (s := s) commitments e
    have hrest := ih (reserveOrder commitments s e)
    refine ⟨hrest.reservations.trans ?_, hrest.contributions.trans ?_,
      hrest.notionalAllocated.trans hfirst.notionalAllocated,
      hrest.budget.trans hfirst.budget, hrest.events.trans hfirst.events,
      hrest.history.trans hfirst.history⟩
    · dsimp only
      rw [hfirst.reservations, List.map_cons, Dict.setAll, Dict.setAll, List.foldl_cons]
    · dsimp only
      rw [hfirst.contributions, List.map_cons, Dict.setAll, Dict.setAll, List.foldl_cons]

theorem emitted_commitments : ∀ e ∈ (emitOrders b sized).emitted, 0 ≤ e.commitment := by
  have hfold : ∀ (nets : List ((String × OrderTerms) × Decimal)) (f : EmitFold),
      (∀ e ∈ f.emitted, 0 ≤ e.commitment) →
        ∀ e ∈ (nets.foldl (EmitFold.emitOrder b sized) f).emitted, 0 ≤ e.commitment := by
    intro nets
    induction nets with
    | nil => exact fun f hf => hf
    | cons net nets ih =>
      intro f hf
      refine ih _ ?_
      unfold EmitFold.emitOrder
      dsimp only
      split_ifs
      · exact hf
      · split
        · exact hf
        · intro e he
          rcases List.mem_append.mp he with he | he
          · exact hf e he
          · obtain rfl := List.mem_singleton.mp he
            refine multiply_nonneg ?_ (abs_nonneg _)
            unfold accountAdding
            cases f.projected.map fun positions => (positions.get? net.1.1).getD 0 with
            | none => exact abs_nonneg _
            | some held => exact le_max_left _ _
  intro e he
  refine hfold (netByTerms sized).entries { projected := b.positions } (by simp) e ?_
  rw [emitOrders] at he
  dsimp only at he
  rcases List.mem_append.mp he with he | he
  · exact (List.mem_filter.mp he).1
  · exact (List.mem_filter.mp he).1

def AllocationEvent.isRelease (orderId : String) : AllocationEvent → Bool
  | .reservationReleased _ released _ => released = orderId
  | .started .. | .rejected .. | .netted .. | .budgetExceeded .. | .completed ..
  | .executionApplied .. => false

/-- How often the log records the release of an order's reservation. -/
def releases (events : List AllocationEvent) (orderId : String) : ℕ :=
  events.countP (·.isRelease orderId)

def ReleasesNothing (events : List AllocationEvent) : Prop :=
  ∀ e ∈ events, ∀ orderId, e.isRelease orderId = false

theorem ReleasesNothing.append {l l' : List AllocationEvent} (h : ReleasesNothing l)
    (h' : ReleasesNothing l') : ReleasesNothing (l ++ l') := by
  intro e he
  rcases List.mem_append.mp he with he | he
  · exact h e he
  · exact h' e he

theorem releasesNothing_singleton {e : AllocationEvent}
    (h : ∀ orderId, e.isRelease orderId = false) : ReleasesNothing [e] := by
  intro e' he'
  rw [List.mem_singleton.mp he']
  exact h

theorem releases_append (events : List AllocationEvent) {more : List AllocationEvent}
    (h : ReleasesNothing more) (orderId : String) :
    releases (events ++ more) orderId = releases events orderId := by
  have hzero : more.countP (·.isRelease orderId) = 0 := by
    rw [List.countP_eq_zero]
    intro e he
    rw [h e he orderId]
    exact Bool.false_ne_true
  rw [releases, List.countP_append, hzero, Nat.add_zero, releases]

theorem screenIntents_releases (timestamp : Instant) (intents : List Intent) :
    ReleasesNothing (screenIntents timestamp intents).2 := by
  unfold screenIntents
  induction intents using List.reverseRecOn with
  | nil => simp [ReleasesNothing]
  | append_singleton intents i ih =>
    rw [List.foldl_append, List.foldl_cons, List.foldl_nil]
    generalize List.foldl _ _ intents = acc at ih ⊢
    obtain ⟨kept, events⟩ := acc
    dsimp only at ih ⊢
    split_ifs
    · exact ih.append (releasesNothing_singleton fun _ => rfl)
    · exact ih
    · exact ih.append (releasesNothing_singleton fun _ => rfl)
    · exact ih.append (releasesNothing_singleton fun _ => rfl)

theorem sizeIntents_releases (intents : List Intent) :
    ReleasesNothing (sizeIntents s b intents).2 := by
  unfold sizeIntents
  induction intents using List.reverseRecOn with
  | nil => simp [ReleasesNothing]
  | append_singleton intents i ih =>
    rw [List.foldl_append, List.foldl_cons, List.foldl_nil]
    generalize List.foldl _ _ intents = acc at ih ⊢
    obtain ⟨sized, events⟩ := acc
    dsimp only at ih ⊢
    split
    · exact ih.append (releasesNothing_singleton fun _ => rfl)
    · split_ifs
      · exact ih
      · exact ih

theorem judge_releases {b : AllocationInput} {f : CeilingFold} (d : SizedDelta)
    (hf : ReleasesNothing f.events) : ReleasesNothing (f.judge s b d).events := by
  unfold CeilingFold.judge
  split
  · exact hf
  · split
    · exact hf.append (releasesNothing_singleton fun _ => rfl)
    · exact hf

theorem withinCeilings_releases : ReleasesNothing (withinCeilings s b sized).events := by
  unfold withinCeilings
  split_ifs
  · induction sized using List.reverseRecOn with
    | nil => simp [ReleasesNothing]
    | append_singleton sized d ih =>
      rw [List.foldl_append, List.foldl_cons, List.foldl_nil]
      exact judge_releases d ih
  · simp [ReleasesNothing]

theorem emitOrder_releases {b : AllocationInput} {sized : List SizedDelta} {f : EmitFold}
    (net : (String × OrderTerms) × Decimal) (hf : ReleasesNothing f.events) :
    ReleasesNothing (f.emitOrder b sized net).events := by
  unfold EmitFold.emitOrder
  dsimp only
  split_ifs
  · exact hf
  · split
    · exact hf.append (releasesNothing_singleton fun _ => rfl)
    · exact hf.append (releasesNothing_singleton fun _ => rfl)

theorem emitOrders_releases : ReleasesNothing (emitOrders b sized).events := by
  have hfold : ∀ (nets : List ((String × OrderTerms) × Decimal)) (f : EmitFold),
      ReleasesNothing f.events →
        ReleasesNothing (nets.foldl (EmitFold.emitOrder b sized) f).events := by
    intro nets
    induction nets with
    | nil => exact fun f hf => hf
    | cons net nets ih => exact fun f hf => ih _ (emitOrder_releases net hf)
  exact hfold _ _ (by simp [ReleasesNothing])

def batchOrders (s : AllocationState) (b : AllocationInput) : List EmittedOrder :=
  (emitOrders b (withinCeilings s b
    (sizeIntents s b (screenIntents b.timestamp b.intents).1).1).admitted).emitted

/-- What a batch leaves of the ledgers where none of its orders is placed. -/
structure BatchRefused (s t : AllocationState) : Prop where
  reservations : t.reservations = s.reservations
  contributions : t.contributions = s.contributions
  notionalAllocated : t.notionalAllocated = s.notionalAllocated
  budget : t.budget = s.budget
  history : t.history = s.history
  events : ∃ more, ReleasesNothing more ∧ t.events = s.events ++ more

/-- What a batch makes of the ledgers where it fits the budget: an entry an order. -/
structure BatchPlaced (s t : AllocationState) (emitted : List EmittedOrder) : Prop where
  reservations : t.reservations =
    s.reservations.setAll (emitted.map fun e => (e.request.orderId, e.commitment))
  contributions : t.contributions =
    s.contributions.setAll (emitted.map fun e => (e.request.orderId, e.request.contributions))
  notionalAllocated : t.notionalAllocated = add s.notionalAllocated (totalCommitment emitted)
  budget : t.budget = s.budget
  history : t.history = s.history ++ emitted.map (·.request)
  events : ∃ more, ReleasesNothing more ∧ t.events = s.events ++ more
  fits : fitsBudget s (totalCommitment emitted)

/-- **A batch adds an entry an order, within the budget, or leaves the ledgers.** -/
theorem allocate_entries (s : AllocationState) (b : AllocationInput) :
    ((allocate s b).2 = [] ∧ BatchRefused s (allocate s b).1) ∨
      ((allocate s b).2 = (batchOrders s b).map (·.request) ∧
        BatchPlaced s (allocate s b).1 (batchOrders s b)) := by
  have hstarted : ReleasesNothing [AllocationEvent.started b.timestamp b.intents.length] :=
    releasesNothing_singleton fun _ => rfl
  have hscreened := hstarted.append (screenIntents_releases b.timestamp b.intents)
  set sized := sizeIntents s b (screenIntents b.timestamp b.intents).1 with hsized
  set admitted := withinCeilings s b sized.1 with hadmitted
  have hlogged := ((hscreened.append (sizeIntents_releases (s := s) b
    (screenIntents b.timestamp b.intents).1)).append
    (withinCeilings_releases (s := s) b sized.1)).append
    (emitOrders_releases b admitted.admitted)
  unfold allocate
  dsimp only
  split_ifs with hnone hfits
  · refine Or.inl ⟨rfl, rfl, rfl, rfl, rfl, rfl, _, hscreened, ?_⟩
    rw [List.append_assoc]
  · have hkept := reserveOrders_entries admitted.commitments (batchOrders s b) s
    refine Or.inr ⟨rfl, hkept.reservations, hkept.contributions, rfl, hkept.budget, rfl, ?_, hfits⟩
    refine ⟨_, hlogged.append (releasesNothing_singleton (e := .completed b.timestamp
      ((batchOrders s b).map (·.request)).length (totalCommitment (batchOrders s b)))
      fun _ => rfl), ?_⟩
    simp only [List.append_assoc]
    rfl
  · refine Or.inl ⟨rfl, rfl, rfl, rfl, rfl, rfl, ?_⟩
    refine ⟨_, hlogged.append (releasesNothing_singleton (e := .budgetExceeded b.timestamp
      (totalCommitment (batchOrders s b))
      (subtract s.budget.availableGlobalCapital s.notionalAllocated)) fun _ => rfl), ?_⟩
    simp only [List.append_assoc]
    rfl

end

end AlphaLab
