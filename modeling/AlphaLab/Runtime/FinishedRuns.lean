/-
  What a finished instrument leaves: a contract settled, an option expired, a holding
  exchanged whole.

  * a settlement leaves nothing (`settleContract_flat`);
  * an exchange and an expiry ask only what the account holds, which may be nothing
    where strategies hold opposite sides: `finished_leaves_nothing` says when nothing
    is left, and `crossed_option_is_left` is an option two strategies keep.
-/
import AlphaLab.Runtime.HeldOrders

namespace AlphaLab

open Fallible

variable {c : RunConfig} {s t : PipelineState}

/-- Nothing of an instrument is left: no units, no strategy's units, no order, and nothing
    held for one. -/
structure NothingLeft (s : PipelineState) (assetId : String) : Prop where
  position : ∀ q, s.portfolio.positions.get? assetId = some q → q.quantity = 0
  shares : ∀ strategyId, s.allocation.positionOf strategyId assetId = 0
  working : s.orders.workingOrdersFor assetId = []
  entries : ∀ orderId o, s.orders.get? orderId = some o → o.assetId = assetId → s.Freed orderId

/-- The instrument a call finishes: settles, expires, or exchanges whole. -/
def RunCall.finishes : RunCall → Option String
  | .settle x _ _ => some x.assetId
  | .expire x _ _ => some x.assetId
  | .exchange r =>
    if r.part.isNone ∧ r.exchange.retainedBasisShare.isNone then some r.exchange.assetId else none
  | _ => none

variable {assetId : String}

theorem held_eq_zero : s.held assetId = 0 ↔
    ∀ q, s.portfolio.positions.get? assetId = some q → q.quantity = 0 := by
  unfold PipelineState.held
  cases s.portfolio.positions.get? assetId <;> simp

theorem nothingLeft_iff {s : RoutingState} (hs : HeldOpen s) (hpending : s.pending = [])
    (hclear : s.pipeline.orders.workingOrdersFor assetId = []) :
    NothingLeft s.pipeline assetId ↔ s.pipeline.held assetId = 0 ∧
      ∀ i, s.pipeline.allocation.positionOf i assetId = 0 := by
  rw [held_eq_zero]
  constructor
  · intro h
    exact ⟨h.position, h.shares⟩
  · rintro ⟨hposition, hshares⟩
    exact ⟨hposition, hshares, hclear, fun _ _ ho hasset => hs.freed hpending hclear ho hasset⟩

theorem settledDelivery_ne {record : ContractRecord} {d : Deliverable}
    (h : record.settledDelivery = some d) : d.assetId ≠ record.assetId := by
  unfold ContractRecord.settledDelivery at h
  split at h
  · rename_i terms hterms
    split_ifs at h
    obtain ⟨-, -, -, hother⟩ := record.consistent _ hterms
    exact hother d h
  · cases h

variable {timestamp : Instant} {rates : FxRates}

/-- **A contract settled** is held by nobody. -/
theorem settleContract_flat {x : ContractSettlement}
    (h : s.settleContract c x timestamp rates = .ok t) :
    t.held x.assetId = 0 ∧ ∀ i, t.allocation.positionOf i x.assetId = 0 := by
  obtain ⟨⟨record, economics⟩, hfound, h⟩ := bind_ok.mp h
  obtain ⟨current, -, h⟩ := bind_ok.mp h
  obtain ⟨-, hasset⟩ := settleable_declares hfound
  have hshares : ∀ i, (current.allocation.settleAsset x.assetId).1.positionOf i x.assetId = 0 := by
    intro i
    rw [positionOf_settleAsset, if_pos rfl]
  split at h
  · rename_i hnone
    obtain rfl := pure_ok.mp h
    exact ⟨held_eq_zero.mpr (flat_of_filter hnone), hshares⟩
  rename_i position hposition
  obtain ⟨hget, -⟩ := Option.filter_eq_some_iff.mp hposition
  have hheld : current.held x.assetId = position.quantity := by
    rw [PipelineState.held, hget, Option.elim_some]
  -- the position is closed by a fill, and the strategies' with it
  have hclosed : ∀ u, ((current.withAllocation (current.allocation.settleAsset x.assetId).1).withPrice
      x.assetId x.price).lifecycleFill c x.assetId (-position.quantity) x.price timestamp
      position.currency economics = .ok u →
      u.held x.assetId = 0 ∧ ∀ i, u.allocation.positionOf i x.assetId = 0 := by
    intro u hu
    have hmoved := (lifecycleFill_conveyed hu).1.held x.assetId
    rw [movedOf_singleton, if_pos rfl] at hmoved
    obtain ⟨f, portfolio, -, -, -, -, rfl⟩ := lifecycleFill_ok hu
    refine ⟨hmoved.trans ?_, hshares⟩
    have hbefore : ((current.withAllocation (current.allocation.settleAsset x.assetId).1).withPrice
        x.assetId x.price).held x.assetId = position.quantity := hheld
    rw [hbefore, add_neg_cancel]
  unfold PipelineState.closeContract at h
  cases hdelivery : record.settledDelivery with
  | none =>
    rw [hdelivery] at h
    exact hclosed t h
  | some d =>
    rw [hdelivery] at h
    obtain ⟨_, -, h⟩ := bind_ok.mp h
    obtain ⟨closed, hfill, h⟩ := bind_ok.mp h
    obtain ⟨hzero, hnone⟩ := hclosed closed hfill
    have hne : d.assetId ≠ x.assetId := hasset ▸ settledDelivery_ne hdelivery
    obtain ⟨hconveyed, -⟩ := deliver_conveyed h
    refine ⟨?_, fun i => ?_⟩
    · rw [hconveyed.held, hzero, movedOf_singleton, if_neg hne.symm, add_zero]
    · rw [hconveyed.shares x.assetId (by simpa using hne), hnone]

/-! ## Expiries -/

/-- Whether an option expires into units of itself: it is held, exercised, and delivers some. -/
def ExpiresIntoItself (c : RunConfig) (s : PipelineState) (x : OptionExpiry) (timestamp : Instant) :
    Prop :=
  ∃ o intrinsic, c.declaredOption x.assetId timestamp = .ok o ∧
    s.intrinsicOf c o x.underlyingValue = .ok intrinsic ∧ s.held x.assetId ≠ 0 ∧
    o.terms.automaticExercise.any (·.exercises intrinsic) = true ∧
    o.deliversItself c (s.held x.assetId)

/-- Whether the account's units of an asset are its strategies': there are none of theirs,
    or some, and each strategy's part of what is held is its own share. -/
def HeldAsShared (s : PipelineState) (assetId : String) : Prop :=
  s.allocation.sharesOf assetId = [] ∨ s.held assetId ≠ 0 ∧
    strategyParts (s.allocation.sharesOf assetId) (s.held assetId) =
      .ok (s.allocation.sharesOf assetId)

theorem strategyParts_names {shares parts : List (String × Decimal)} {closing : Decimal}
    (h : strategyParts shares closing = .ok parts) : parts.map Prod.fst = shares.map Prod.fst := by
  unfold strategyParts at h
  by_cases hnil : shares = []
  · obtain rfl := pure_ok.mp ((if_pos hnil).symm.trans h)
    rw [hnil]
  have h := (if_neg hnil).symm.trans h
  by_cases hall : closing = contextSum (shares.map Prod.snd)
  · obtain rfl := pure_ok.mp ((if_pos hall).symm.trans h)
    rfl
  obtain ⟨_, -, h⟩ := bind_ok.mp ((if_neg hall).symm.trans h)
  by_cases hwhole : ∀ s ∈ shares, roundDown s.2 = s.2
  · obtain rfl := pure_ok.mp ((if_pos hwhole).symm.trans h)
    rw [wholeParts, List.map_fst_zip]
    simp only [apportionUnits, List.length_map, List.length_zipIdx, le_refl]
  · obtain rfl := pure_ok.mp ((if_neg hwhole).symm.trans h)
    obtain ⟨first, last, rfl⟩ : ∃ first last, shares = first ++ [last] :=
      ⟨_, _, (List.dropLast_append_getLast hnil).symm⟩
    simp [proportionalParts, Function.comp_def]

theorem parts_eq_of_partOf : ∀ {shares parts : List (String × Decimal)},
    parts.map Prod.fst = shares.map Prod.fst → (shares.map Prod.fst).Nodup →
    (∀ i, partOf parts i = partOf shares i) → parts = shares := by
  intro shares parts hnames hnodup hsame
  refine List.ext_getElem (by simpa using congrArg List.length hnames) ?_
  intro n hparts hshares
  have hname : (parts[n]).1 = (shares[n]).1 := by
    have := congrArg (·[n]?) hnames
    simpa [List.getElem?_map, hparts, hshares] using this
  refine Prod.ext hname ?_
  have hpart := partOf_eq (hnames ▸ hnodup) (i := (parts[n]).1) (q := (parts[n]).2)
    (List.getElem_mem hparts)
  have hshare := partOf_eq hnodup (i := (shares[n]).1) (q := (shares[n]).2)
    (List.getElem_mem hshares)
  rw [← hpart, ← hshare, hsame, hname]

/-- Each strategy's units after its part of what is held was surrendered. -/
theorem surrendered_shares {o : DeclaredOption} {closing price : Decimal}
    {parts : List (String × Decimal)} (hparts : s.partsOf o.record.assetId closing = .ok parts)
    (h : s.surrender c o closing price parts timestamp = .ok t) :
    (∀ i, t.allocation.positionOf i o.record.assetId = 0) ↔
      parts = s.allocation.sharesOf o.record.assetId := by
  have hnames := strategyParts_names (inExchange_ok.mp hparts)
  have hnodup := nodup_sharesOf s.allocation o.record.assetId
  have hposition : ∀ i, t.allocation.positionOf i o.record.assetId =
      partOf (s.allocation.sharesOf o.record.assetId) i - partOf parts i := by
    intro i
    rw [(surrender_conveyed h).2]
    by_cases hrecorded : s.allocation.Recorded
    · rw [positionOf_applyLifecycle _ _ _ hrecorded, if_pos rfl, Option.elim_none, add_zero,
        partOf_sharesOf]
    · have hnil : s.allocation.sharesOf o.record.assetId = [] :=
        sharesOf_eq_nil.mpr fun i => positionOf_unrecorded hrecorded i _
      rw [hnil] at hnames ⊢
      rw [applyLifecycle_unrecorded _ _ _ hrecorded, positionOf_unrecorded hrecorded,
        List.map_eq_nil_iff.mp hnames, sub_self]
  constructor
  · intro hzero
    refine parts_eq_of_partOf hnames hnodup fun i => ?_
    have hi := hposition i
    rw [hzero] at hi
    exact (sub_eq_zero.mp hi.symm).symm
  · intro hsame i
    rw [hposition, hsame, sub_self]

/-- **An option expired** is held by nobody exactly where it expired into nothing of itself
    and the account's units were its strategies'. -/
theorem expireOption_flat {x : OptionExpiry} (h : s.expireOption c x timestamp rates = .ok t) :
    (t.held x.assetId = 0 ∧ ∀ i, t.allocation.positionOf i x.assetId = 0) ↔
      ¬ ExpiresIntoItself c s x timestamp ∧ HeldAsShared s x.assetId := by
  obtain ⟨o, cancelled, intrinsic, current, ho, hcancel, hintrinsic, rfl, h⟩ := expireOption_ok h
  obtain ⟨hd, hasset⟩ := declaredOption_declares ho
  have hcleared := cancelWorking_cleared hcancel
  have hheld : (cancelled.withPrice x.assetId intrinsic).held x.assetId = s.held x.assetId :=
    hcleared.held x.assetId
  have hshares : (cancelled.withPrice x.assetId intrinsic).allocation.sharesOf x.assetId =
      s.allocation.sharesOf x.assetId := hcleared.sharesOf x.assetId
  have hinto : ExpiresIntoItself c s x timestamp ↔ s.held x.assetId ≠ 0 ∧
      o.terms.automaticExercise.any (·.exercises intrinsic) = true ∧
      o.deliversItself c (s.held x.assetId) := by
    constructor
    · rintro ⟨o', intrinsic', ho', hintrinsic', hrest⟩
      obtain rfl := Except.ok.inj (ho.symm.trans ho')
      obtain rfl := Except.ok.inj (hintrinsic.symm.trans hintrinsic')
      exact hrest
    · intro hrest
      exact ⟨o, intrinsic, ho, hintrinsic, hrest⟩
  rw [hinto, HeldAsShared]
  rw [hheld] at h
  rcases h with ⟨hflat, rfl⟩ | ⟨hne, parts, hparts, h⟩
  · rw [hheld, ← sharesOf_eq_nil, hshares]
    simp [hflat]
  have hparts' : strategyParts (s.allocation.sharesOf x.assetId) (s.held x.assetId) = .ok parts := by
    rw [← hshares]
    exact inExchange_ok.mp hparts
  -- surrendering what is held leaves the account flat
  have hsurrendered : ∀ price u, (cancelled.withPrice x.assetId intrinsic).surrender c o
      (s.held x.assetId) price parts timestamp = .ok u → u.held x.assetId = 0 ∧
      ((∀ i, u.allocation.positionOf i x.assetId = 0) ↔ HeldAsShared s x.assetId) := by
    intro price u hu
    have hown : (cancelled.withPrice x.assetId intrinsic).partsOf o.record.assetId
        (s.held x.assetId) = .ok parts := by
      rw [hasset]
      exact hparts
    have hiff := surrendered_shares hown hu
    rw [hasset, hshares] at hiff
    refine ⟨?_, hiff.trans ?_⟩
    · rw [(surrender_conveyed hu).1.held, hheld, hasset, movedOf_singleton, if_pos rfl,
        add_neg_cancel]
    · rw [HeldAsShared, hparts']
      constructor
      · rintro rfl
        exact Or.inr ⟨hne, rfl⟩
      · rintro (hnil | ⟨-, hsame⟩)
        · have hnames := strategyParts_names hparts'
          rw [hnil] at hnames ⊢
          exact List.map_eq_nil_iff.mp hnames
        · exact Except.ok.inj hsame
  rcases h with ⟨hexercised, h⟩ | ⟨hunexercised, h⟩
  · obtain ⟨price, u, moved, hu, hmoved, hsome, hitself⟩ := resolveOption_conveyed hd h
    obtain ⟨hzero, hiff⟩ := hsurrendered price u hu
    rw [hasset] at hsome hitself
    have hafter : t.held x.assetId = movedOf moved x.assetId := by
      rw [hmoved.held, hzero, zero_add]
    by_cases hdelivers : o.deliversItself c (s.held x.assetId)
    · have hmovedOf := hsome.mpr (hitself.mp hdelivers)
      rw [hafter]
      simp [hmovedOf, hne, hexercised, hdelivers]
    · have hnone : ¬ ∃ e ∈ moved, e.1 = x.assetId := fun h => hdelivers (hitself.mpr h)
      have hflat : movedOf moved x.assetId = 0 := by
        by_contra hmovedOf
        exact hnone (hsome.mp hmovedOf)
      have hkept : ∀ i, t.allocation.positionOf i x.assetId = u.allocation.positionOf i x.assetId :=
        hmoved.shares x.assetId fun e he hof => hnone ⟨e, he, hof⟩
      simp only [hafter, hflat, hkept, hiff, HeldAsShared, hdelivers, and_false, not_false_eq_true,
        true_and]
  · obtain ⟨hzero, hiff⟩ := hsurrendered 0 t h
    simp only [hzero, hiff, HeldAsShared, hunexercised, Bool.false_eq_true, false_and, and_false,
      not_false_eq_true, true_and]

theorem exchangePlan_mem {ctx : ExchangeContext} {units : CurrencyUnits} {x : HoldingExchange}
    {held : Position} {at_ : Instant} {plan : ExchangePlan}
    (h : exchangePlan ctx units x held at_ rates = .ok plan) : ∀ e ∈ plan.legs, e.1 ∈ x.legs := by
  obtain ⟨legs, hlegs, h⟩ := bind_ok.mp h
  obtain ⟨planned, hcash, h⟩ := bind_ok.mp h
  obtain rfl := pure_ok.mp h
  have hsame : planned.legs = legs.legs := by
    unfold Planning.cash at hcash
    split_ifs at hcash
    · rw [← pure_ok.mp hcash]
    · simp only [bind_ok, pure_ok] at hcash
      obtain ⟨-, -, converted, -, rfl⟩ := hcash
      rfl
  show ∀ e ∈ planned.legs, e.1 ∈ x.legs
  rw [hsame]
  refine foldlM_invariant (fun planned : Planned => ∀ e ∈ planned.legs, e.1 ∈ x.legs) hlegs
    (by simp) ?_
  intro leg hleg p p' hstep hp
  simp only [Planning.leg, bind_ok, require_ok] at hstep
  obtain ⟨-, -, whole, hwhole, ⟨mid, carried⟩, hfrac, hstep⟩ := hstep
  have hwhole : whole = (planning ctx units x held at_ rates).whole leg := by
    rw [Planning.whole, Planning.received, hwhole]
  subst hwhole
  obtain ⟨-, hmid⟩ := payFraction_carried hfrac
  split_ifs at hstep
  · rw [← pure_ok.mp hstep, hmid]
    exact hp
  · obtain ⟨basis, -, hstep⟩ := bind_ok.mp hstep
    obtain rfl := pure_ok.mp hstep
    intro e he
    rcases List.mem_append.mp he with he | he
    · exact hp e (hmid ▸ he)
    · rw [List.mem_singleton.mp he]
      exact hleg

theorem applyLifecycle_recorded {a : AllocationState} (assetId : String)
    (closed : List (String × Decimal))
    (delivered : Option (String × List (String × Decimal) × Decimal)) (h : a.Recorded) :
    (a.applyLifecycle assetId closed delivered).Recorded := by
  rw [AllocationState.applyLifecycle, if_neg h]
  obtain ⟨-, hkept⟩ := positionOf_moves (fun s e hs => positionOf_closeUnits assetId e hs)
    closed h "" ""
  cases delivered with
  | none => exact hkept
  | some d =>
    exact (positionOf_moves (fun s e hs => positionOf_receiveUnits d.1 d.2.2 e hs) d.2.1 hkept
      "" "").2

/-- **Strategies whose holding is exchanged whole** hold none of it. -/
theorem exchangeShares_flat {config : PipelineConfig} {x : HoldingExchange}
    {legs : List (ExchangeLeg × ExchangedHolding)} {parts : List (String × List (String × Decimal))}
    {a a' : AllocationState} (hretained : x.retainedBasisShare = none)
    (hlegs : ∀ e ∈ legs, e.1.assetId ≠ x.assetId)
    (h : exchangeShares config rates x (a.sharesOf x.assetId) legs parts timestamp a = .ok a') :
    ∀ i, a'.positionOf i x.assetId = 0 := by
  obtain ⟨exchanged, hexchanged, h⟩ := bind_ok.mp h
  obtain rfl := pure_ok.mp h
  rw [hretained] at hexchanged ⊢
  simp only [Option.isSome_none, Bool.false_eq_true, if_false] at hexchanged ⊢
  by_cases hrecorded : a.Recorded
  swap
  · -- no position is recorded, before or after
    have hsame : exchanged = a := by
      refine foldlM_invariant (· = a) hexchanged rfl ?_
      intro leg _ b b' hleg hb
      obtain ⟨value, -, hleg⟩ := bind_ok.mp hleg
      obtain rfl := pure_ok.mp hleg
      rw [hb, applyLifecycle_unrecorded _ _ _ hrecorded]
    intro i
    rw [hsame, applyLifecycle_unrecorded _ _ _ hrecorded, ite_self,
      positionOf_unrecorded hrecorded]
  -- a leg moves the holding by what it closes of it, which is all or nothing
  have hleg : ∀ (leg : (ExchangeLeg × ExchangedHolding) × ℕ) (b b' : AllocationState),
      leg.1 ∈ legs → b.Recorded → exchangeLegShares config rates x.assetId (a.sharesOf x.assetId)
        parts timestamp b leg = .ok b' → b'.Recorded ∧ ∀ i, b'.positionOf i x.assetId =
        b.positionOf i x.assetId - if leg.2 = 0 then a.positionOf i x.assetId else 0 := by
    intro leg b b' hmem hb hstep
    obtain ⟨value, -, hstep⟩ := bind_ok.mp hstep
    obtain rfl := pure_ok.mp hstep
    refine ⟨applyLifecycle_recorded _ _ _ hb, fun i => ?_⟩
    rw [positionOf_applyLifecycle _ _ _ hb, if_pos rfl, Option.elim_some,
      if_neg (hlegs _ hmem).symm, add_zero]
    split_ifs
    · rw [partOf_sharesOf]
    · simp [partOf]
  cases legs with
  | nil =>
    obtain rfl := pure_ok.mp hexchanged
    intro i
    by_cases hnil : a.sharesOf x.assetId = []
    · simp only [hnil, ne_eq, not_true_eq_false, and_false, if_false]
      exact sharesOf_eq_nil.mp hnil i
    · rw [if_pos ⟨rfl, hnil⟩, positionOf_applyLifecycle _ _ _ hrecorded, if_pos rfl,
        Option.elim_none, add_zero, partOf_sharesOf, sub_self]
  | cons first rest =>
    simp only [List.cons_ne_nil, false_and, if_false]
    rw [List.zipIdx_cons, List.foldlM_cons] at hexchanged
    obtain ⟨b, hfirst, hrest⟩ := bind_ok.mp hexchanged
    obtain ⟨hb, hposition⟩ := hleg _ a b (by simp) hrecorded hfirst
    have hflat : ∀ i, b.positionOf i x.assetId = 0 := by
      intro i
      rw [hposition, if_pos rfl, sub_self]
    refine (foldlM_invariant (fun b : AllocationState => b.Recorded ∧
      ∀ i, b.positionOf i x.assetId = 0) hrest ⟨hb, hflat⟩ ?_).2
    rintro ⟨leg, n⟩ hmem b b' hstep ⟨hb, hzero⟩
    obtain ⟨hn, -, hget⟩ := List.mem_zipIdx hmem
    obtain ⟨hb', hafter⟩ := hleg (leg, n) b b'
      (by rw [hget]; exact List.mem_cons_of_mem _ (List.getElem_mem _)) hb hstep
    refine ⟨hb', fun i => ?_⟩
    rw [hafter, hzero, if_neg (by omega), sub_zero]

/-- **A holding exchanged whole** is held by nobody exactly where the account held some of
    it, or no strategy did. -/
theorem applyExchange_flat {config : PipelineConfig} {ctx : ExchangeContext} {r : ExchangeRequest}
    (hwhole : r.part = none) (hretained : r.exchange.retainedBasisShare = none)
    (h : s.applyExchange config ctx r = .ok t) :
    (t.held r.exchange.assetId = 0 ∧ ∀ i, t.allocation.positionOf i r.exchange.assetId = 0) ↔
      (s.allocation.sharesOf r.exchange.assetId = [] ∨ s.held r.exchange.assetId ≠ 0) := by
  obtain ⟨current, hcancel, h⟩ := bind_ok.mp h
  have hcleared := cancelWorking_cleared hcancel
  rw [← hcleared.sharesOf r.exchange.assetId, ← hcleared.held r.exchange.assetId]
  split at h
  · rename_i hnone
    obtain rfl := pure_ok.mp h
    have hflat := held_eq_zero.mpr (flat_of_filter hnone)
    rw [← sharesOf_eq_nil]
    simp [hflat]
  rename_i held hheld
  obtain ⟨taken, htaken, h⟩ := bind_ok.mp h
  obtain ⟨plan, hplan, h⟩ := bind_ok.mp h
  obtain ⟨parts, -, h⟩ := bind_ok.mp h
  obtain ⟨portfolio, hportfolio, h⟩ := bind_ok.mp h
  obtain ⟨allocation, hallocation, h⟩ := bind_ok.mp h
  obtain rfl := pure_ok.mp h
  obtain ⟨hget, hne⟩ := Option.filter_eq_some_iff.mp hheld
  have hsome : current.held r.exchange.assetId ≠ 0 := by
    rw [PipelineState.held, hget, Option.elim_some]
    exact of_decide_eq_true hne
  refine iff_of_true ⟨?_, ?_⟩ (Or.inr hsome)
  · refine held_eq_zero.mpr fun q hq => ?_
    rcases exchangeHolding_ok (mapError_ok.mp hportfolio) with
      ⟨hnone, -⟩ | ⟨held', booking, -, -, hbooking, happly⟩
    · rw [hheld] at hnone
      cases hnone
    obtain ⟨taken', plan', parts', htaken', hplan', -, rfl⟩ := exchangeBooking_ok hbooking
    obtain ⟨_, _, _, _, _, _, _, -, -, -, hpositions, -, -, -, -, rfl⟩ := applyExchange_ok happly
    have hkept : taken'.kept = none := by
      unfold takenPart at htaken'
      rw [hwhole] at htaken'
      rw [← pure_ok.mp htaken']
    have hbasis : plan'.retainedBasis = none := by
      obtain ⟨_, -, hplan'⟩ := bind_ok.mp hplan'
      obtain ⟨_, -, hplan'⟩ := bind_ok.mp hplan'
      rw [← pure_ok.mp hplan', hretained, Option.map_none]
    simp only [exchangedHolding, hkept, hbasis, Option.getD_none, if_true] at hpositions
    obtain rfl := pure_ok.mp hpositions
    rw [Dict.get?_delete_self] at hq
    cases hq
  · have hshares : taken.shares = current.allocation.sharesOf r.exchange.assetId := by
      have htaken := mapError_ok.mp htaken
      unfold takenPart at htaken
      rw [hwhole] at htaken
      rw [← pure_ok.mp htaken]
    rw [hshares] at hallocation
    refine exchangeShares_flat hretained ?_ hallocation
    intro e he
    have hmem := exchangePlan_mem (mapError_ok.mp hplan) e he
    rintro heq
    exact r.exchange.notOwn (List.mem_map.mpr ⟨e.1, hmem, heq⟩)

/-- When a call that finishes an instrument leaves nothing of it: a settlement always; an
    exchange where the account holds some, or no strategy does; an expiry where it delivers
    nothing of itself, and the account's units are its strategies'. -/
def RunCall.Finishes (c : RunConfig) (s : PipelineState) : RunCall → Prop
  | .exchange r => s.allocation.sharesOf r.exchange.assetId = [] ∨ s.held r.exchange.assetId ≠ 0
  | .expire x timestamp _ => ¬ ExpiresIntoItself c s x timestamp ∧ HeldAsShared s x.assetId
  | _ => True

theorem clears_of_finishes {call : RunCall} (h : call.finishes = some assetId) :
    call.clears = some assetId := by
  cases call with
  | settle | expire => exact h
  | exchange r =>
    simp only [RunCall.finishes] at h
    split_ifs at h
    exact h
  | _ => cases h

theorem call_finishes {call : RunCall} (hcall : call.finishes = some assetId)
    (h : s.call c call = .ok t) :
    (t.held assetId = 0 ∧ ∀ i, t.allocation.positionOf i assetId = 0) ↔ call.Finishes c s := by
  cases call with
  | settle x timestamp rates =>
    obtain rfl := Option.some.inj hcall
    exact iff_of_true (settleContract_flat (mapError_ok.mp h)) trivial
  | expire x timestamp rates =>
    obtain rfl := Option.some.inj hcall
    exact expireOption_flat (mapError_ok.mp h)
  | exchange r =>
    simp only [RunCall.finishes] at hcall
    split_ifs at hcall with hwhole
    obtain rfl := Option.some.inj hcall
    exact applyExchange_flat (Option.isNone_iff_eq_none.mp hwhole.1)
      (Option.isNone_iff_eq_none.mp hwhole.2) (mapError_ok.mp h)
  | _ => cases hcall

/-- **A finished instrument leaves nothing behind**, in every run, exactly where its last call
    finishes: a settlement always does, an exchange where the account holds some or no
    strategy does, an expiry where besides the account's units are its strategies' and it
    delivers nothing of itself. -/
theorem finished_leaves_nothing (c : RunConfig) (budget : CapitalBudget) (account : Account)
    (s t : RoutingState) (call : RunCall) (assetId : String)
    (h : Reached c (fun _ _ => True) budget account s) (hstep : runStep c s call = .ok t)
    (hcall : call.finishes = some assetId) :
    NothingLeft t.pipeline assetId ↔ call.Finishes c s.pipeline := by
  have hbook : bookStep c s call = .ok t := by
    cases call with
    | order => cases hcall
    | _ => exact hstep
  obtain ⟨-, hafter, hpending⟩ := bookStep_ok.mp hbook
  have hheld : HeldOpen t := runStep_heldOpen (reached_heldOpen h) hstep
  have hclear : t.pipeline.orders.workingOrdersFor assetId = [] := by
    obtain ⟨w, hcancel, hkept⟩ := call_orders hafter
    obtain ⟨timestamp, hcancel⟩ := (RunCall.clearedBy_some (clears_of_finishes hcall)).mp hcancel
    rw [hkept.orders]
    exact (cancelWorking_cleared hcancel).working
  rw [nothingLeft_iff hheld hpending hclear]
  exact call_finishes hcall hafter

/-! ## An option held on both sides -/

def dollarShare : ContractRecord where
  assetId := "S"
  symbol := "S"
  assetType := .equity
  currency := "USD"

theorem ten_positive : (0 : Decimal) < 10 := by norm_num

def shareCall : ContractRecord where
  assetId := "C"
  symbol := "C"
  assetType := .option
  currency := "USD"
  economics := some { cashEquity with settlement := .optionPremium }
  lastTradeAt := some 9
  terms := some (.option {
    optionType := .call
    strike := 10
    exerciseStyle := .european
    settlement := .cash
    deliverable := ⟨"S", 1, one_positive⟩
    expiresAt := 9
    automaticExercise := none
    strike_pos := ten_positive })
  consistent := by simp [ContractTerms.belongsTo, ContractTerms.expiresAt, ContractTerms.deliverable]

def optionsRun : RunConfig where
  currency := "USD"
  instruments := some (registryOf [dollarShare, shareCall])

/-- One call bought by a strategy, and as many sold by another. -/
def crossedCalls : List RunCall :=
  [.cash (.deposit 1000 "USD" 0)] ++ tradeCalls "A" "C" 1 2 1 ++ tradeCalls "B" "C" (-1) 2 2

def callExpired : RunCall := .expire { assetId := "C", underlyingValue := some 12 } 9 noRates

/-- A call one strategy bought expires, and nothing of it is left. -/
theorem finished_leaves_nothing_bought : ∃ s t,
    runOf optionsRun ([.cash (.deposit 1000 "USD" 0)] ++ tradeCalls "A" "C" 1 2 1) = .ok s ∧
    s.pipeline.held "C" = 1 ∧ runStep optionsRun s callExpired = .ok t ∧
    NothingLeft t.pipeline "C" := by
  obtain ⟨s, hs, hheld, hshared, hexpired⟩ := exists_ok_of
    (x := runOf optionsRun ([.cash (.deposit 1000 "USD" 0)] ++ tradeCalls "A" "C" 1 2 1))
    (fun s => s.pipeline.held "C" = 1 ∧
      strategyParts (s.pipeline.allocation.sharesOf "C") (s.pipeline.held "C") =
        .ok (s.pipeline.allocation.sharesOf "C") ∧
      (runStep optionsRun s callExpired).toOption.any (fun _ => decide True) = true)
    (by decide +kernel)
  obtain ⟨t, ht, -⟩ := exists_ok_of _ hexpired
  refine ⟨s, t, hs, hheld, ht, ?_⟩
  refine (finished_leaves_nothing optionsRun _ _ s t callExpired "C"
    (Runs.of_foldlM hs fun _ _ _ => trivial) ht rfl).mpr ⟨?_, Or.inr ⟨?_, hshared⟩⟩
  · rintro ⟨o, intrinsic, ho, -, -, hexercised, -⟩
    obtain ⟨record, hfind, ho⟩ := bind_ok.mp ho
    have hrecord : record = shareCall := Option.some.inj ((find_ok.mp hfind).symm.trans rfl)
    subst hrecord
    obtain ⟨economics, -, ho⟩ := bind_ok.mp ho
    obtain rfl := pure_ok.mp ho
    cases hexercised
  · rw [hheld]
    norm_num

/-- **A call held on both sides is left**: the account holds none of it, its expiry does
    nothing, and each strategy keeps its own. -/
theorem crossed_option_is_left : ∃ s t, runOf optionsRun crossedCalls = .ok s ∧
    runStep optionsRun s callExpired = .ok t ∧
    t.pipeline.allocation.positionOf "A" "C" = 1 ∧ t.pipeline.allocation.positionOf "B" "C" = -1 ∧
    ¬ NothingLeft t.pipeline "C" := by
  obtain ⟨s, hs, hexpired⟩ := exists_ok_of (x := runOf optionsRun crossedCalls)
    (fun s => (runStep optionsRun s callExpired).toOption.any (fun t => decide
      (t.pipeline.allocation.positionOf "A" "C" = 1 ∧
        t.pipeline.allocation.positionOf "B" "C" = -1)) = true) (by decide +kernel)
  obtain ⟨t, ht, hlong, hshort⟩ := exists_ok_of _ hexpired
  refine ⟨s, t, hs, ht, hlong, hshort, fun hleft => ?_⟩
  rw [hleft.shares "A"] at hlong
  norm_num at hlong

end AlphaLab
