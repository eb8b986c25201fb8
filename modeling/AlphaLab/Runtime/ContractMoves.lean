/-
  What a contract's life moves: the units of each asset the account and its
  strategies hold, and no order nor anything held for one.

  * `Conveyed moved s t`: `t` is `s` with the units `moved`, its orders and the
    entries held for them as they were;
  * `resolveOption_conveyed`: an exercised or assigned option surrenders its
    contracts and conveys what it delivers, itself only where it names itself.
-/
import AlphaLab.Allocation.Shares
import AlphaLab.Runtime.HoldingMoves

namespace AlphaLab

open Fallible

variable {c : RunConfig} {s t u : PipelineState}

def unitsHeld (p : PortfolioState) (asset : String) : Decimal :=
  (p.positions.get? asset).elim 0 (·.quantity)

theorem held_eq (s : PipelineState) (asset : String) : s.held asset = unitsHeld s.portfolio asset :=
  rfl

theorem applyFill_units {p p' : PortfolioState} {f : Fill} (h : applyFill p f = .ok p')
    (asset : String) :
    unitsHeld p' asset = unitsHeld p asset + if asset = f.assetId then f.quantity else 0 := by
  obtain ⟨hne, _, pos, _, _, _, _, newPos, _, -, hpos, -, -, happly, -, -, -, rfl⟩ := applyFill_ok h
  have hbefore : unitsHeld p f.assetId = pos.quantity := by
    unfold fillPosition at hpos
    unfold unitsHeld
    split at hpos
    · rename_i held hheld
      obtain rfl := pure_ok.mp hpos
      rw [hheld, Option.elim_some]
    · rename_i hnone
      obtain ⟨-, -, -, hflat, -⟩ := flatPosition_terms (orRefuse_ok.mp hpos)
      rw [hnone, Option.elim_none, hflat]
  have hafter : newPos.quantity = pos.quantity + f.quantity := by
    obtain ⟨b, r, o, hbooks, -⟩ := pos.applyFill_books f.price f.timestamp hne
    rw [hbooks] at happly
    rw [← (Prod.mk.inj happly).1, Position.rebasedAt_quantity]
  by_cases hasset : asset = f.assetId
  · subst hasset
    rw [if_pos rfl, hbefore, ← hafter, unitsHeld]
    by_cases hzero : newPos.quantity = 0
    · rw [if_pos hzero, Dict.get?_delete_self, Option.elim_none, hzero]
    · rw [if_neg hzero, Dict.get?_set_self, Option.elim_some]
  · rw [if_neg hasset, add_zero, unitsHeld, unitsHeld]
    by_cases hzero : newPos.quantity = 0
    · simp only [if_pos hzero, Dict.get?_delete, if_neg hasset]
    · simp only [if_neg hzero, Dict.get?_set_of_ne _ _ hasset]

variable {timestamp : Instant}

theorem markChanged_units {p p' : PortfolioState} {prices : Dict String Decimal}
    {changed : Option String} (h : markChanged p prices timestamp changed = .ok p') (asset : String)
    : unitsHeld p' asset = unitsHeld p asset := by
  rcases markChanged_ok h with rfl | ⟨held, hheld, h⟩
  · rfl
  rcases marked_asset hheld h asset with ⟨-, q, price, hq, -, hposition⟩ | ⟨hposition, -⟩
  · rw [unitsHeld, unitsHeld, hposition, hq, Option.elim_some, Option.elim_some,
      Position.settle_quantity]
  · rw [unitsHeld, unitsHeld, hposition]

/-! ## Orders kept, units conveyed -/

structure OrdersKept (s t : PipelineState) : Prop where
  orders : t.orders = s.orders
  reservations : ∀ k, t.allocation.reservations.get? k = s.allocation.reservations.get? k
  contributions : ∀ k, t.allocation.contributions.get? k = s.allocation.contributions.get? k

theorem OrdersKept.refl (s : PipelineState) : OrdersKept s s := ⟨rfl, fun _ => rfl, fun _ => rfl⟩

theorem OrdersKept.trans (h : OrdersKept s t) (h' : OrdersKept t u) : OrdersKept s u where
  orders := h'.orders.trans h.orders
  reservations k := (h'.reservations k).trans (h.reservations k)
  contributions k := (h'.contributions k).trans (h.contributions k)

theorem OrdersKept.of_entries (horders : t.orders = s.orders)
    (h : EntriesKept s.allocation t.allocation) : OrdersKept s t :=
  ⟨horders, fun k => congrArg (·.get? k) h.reservations, fun k => congrArg (·.get? k) h.contributions⟩

def movedOf (moved : List (String × Decimal)) (asset : String) : Decimal :=
  ((moved.filter (·.1 = asset)).map Prod.snd).sum

/-- **Units moved, asset by asset**, and no order nor what is held for one.  The strategies'
    own units of an asset that none moved of are as they were. -/
structure Conveyed (moved : List (String × Decimal)) (s t : PipelineState) : Prop where
  kept : OrdersKept s t
  held : ∀ asset, t.held asset = s.held asset + movedOf moved asset
  shares : ∀ asset, (∀ e ∈ moved, e.1 ≠ asset) → ∀ strategyId,
    t.allocation.positionOf strategyId asset = s.allocation.positionOf strategyId asset

theorem Conveyed.of_same (hkept : OrdersKept s t) (hheld : ∀ asset, t.held asset = s.held asset)
    (hallocation : t.allocation = s.allocation) : Conveyed [] s t where
  kept := hkept
  held asset := by
    rw [hheld]
    simp [movedOf]
  shares _ _ _ := by rw [hallocation]

theorem Conveyed.trans {moved moved' : List (String × Decimal)} (h : Conveyed moved s t)
    (h' : Conveyed moved' t u) : Conveyed (moved ++ moved') s u where
  kept := h.kept.trans h'.kept
  held asset := by
    rw [h'.held, h.held, movedOf, movedOf, movedOf, List.filter_append, List.map_append,
      List.sum_append, add_assoc]
  shares asset hnone strategyId := by
    rw [h'.shares asset (fun e he => hnone e (by simp [he])),
      h.shares asset (fun e he => hnone e (by simp [he]))]

theorem movedOf_ne_zero {moved : List (String × Decimal)} {sign : Decimal} {asset : String}
    (hsign : ∀ e ∈ moved, e.1 = asset → 0 < sign * e.2) :
    movedOf moved asset ≠ 0 ↔ ∃ e ∈ moved, e.1 = asset := by
  constructor
  · intro hne
    by_contra hnone
    push Not at hnone
    have hfilter : moved.filter (·.1 = asset) = [] := by
      rw [List.filter_eq_nil_iff]
      simpa using hnone
    exact hne (by rw [movedOf, hfilter, List.map_nil, List.sum_nil])
  · rintro ⟨e, he, hasset⟩ hzero
    have hpos : 0 < ((moved.filter (·.1 = asset)).map fun e => sign * e.2).sum := by
      refine List.sum_pos _ ?_ ?_
      · intro x hx
        obtain ⟨e', he', rfl⟩ := List.mem_map.mp hx
        obtain ⟨hmem, hof⟩ := List.mem_filter.mp he'
        exact hsign e' hmem (of_decide_eq_true hof)
      · rw [ne_eq, List.map_eq_nil_iff]
        exact List.ne_nil_of_mem (List.mem_filter.mpr ⟨he, decide_eq_true hasset⟩)
    have hfactor : ((moved.filter (·.1 = asset)).map fun e => sign * e.2).sum =
        sign * movedOf moved asset := by
      rw [movedOf, ← List.sum_map_mul_left]
    rw [hfactor, hzero, mul_zero] at hpos
    exact lt_irrefl 0 hpos

theorem movedOf_singleton (a : String) (units : Decimal) (asset : String) :
    movedOf [(a, units)] asset = if asset = a then units else 0 := by
  by_cases h : asset = a
  · simp [movedOf, h]
  · simp [movedOf, h, Ne.symm h]

/-! ## Fills and deliveries -/

variable {economics : InstrumentEconomics} {financed : Bool}

theorem lifecycleFill_conveyed {assetId currency : String} {quantity price : Decimal}
    (h : s.lifecycleFill c assetId quantity price timestamp currency economics financed = .ok t) :
    Conveyed [(assetId, quantity)] s t ∧ quantity ≠ 0 := by
  obtain ⟨f, portfolio, hasset, hquantity, -, hfill, rfl⟩ := lifecycleFill_ok h
  refine ⟨⟨⟨rfl, fun _ => rfl, fun _ => rfl⟩, fun asset => ?_, fun _ _ _ => rfl⟩, ?_⟩
  · rw [movedOf_singleton, ← hasset, ← hquantity]
    exact applyFill_units hfill asset
  · rw [← hquantity]
    exact (applyFill_ok hfill).1

variable {rates : FxRates} {parts : List (String × Decimal)}

theorem receiveParts_conveyed {assetId currency : String} {value : Decimal}
    (h : s.receiveParts c rates assetId parts value currency timestamp = .ok t) :
    OrdersKept s t ∧ t.portfolio = s.portfolio ∧ ∀ asset, asset ≠ assetId → ∀ strategyId,
      t.allocation.positionOf strategyId asset = s.allocation.positionOf strategyId asset := by
  obtain ⟨budgetValue, -, h⟩ := bind_ok.mp h
  obtain rfl := pure_ok.mp h
  have hkept := applyLifecycle_kept (s := s.allocation) assetId []
    (some (assetId, parts, budgetValue))
  refine ⟨.of_entries rfl hkept, rfl, fun asset hasset strategyId => ?_⟩
  by_cases hrecorded : s.allocation.Recorded
  · refine (positionOf_applyLifecycle _ _ _ hrecorded strategyId asset).trans ?_
    simp [hasset, partOf]
  · rw [PipelineState.withAllocation, applyLifecycle_unrecorded _ _ _ hrecorded]

variable {assetId : String}

theorem remark_conveyed (h : s.remark assetId timestamp = .ok t) : Conveyed [] s t := by
  unfold PipelineState.remark at h
  split at h
  · obtain rfl := pure_ok.mp h
    exact .of_same (.refl s) (fun _ => rfl) rfl
  · obtain ⟨portfolio, hmark, h⟩ := bind_ok.mp h
    obtain rfl := pure_ok.mp h
    exact .of_same ⟨rfl, fun _ => rfl, fun _ => rfl⟩ (markChanged_units (inBook_ok.mp hmark)) rfl

theorem receive_conveyed {record : ContractRecord} {units unitPrice : Decimal}
    (h : s.receive c rates record economics units unitPrice parts timestamp financed = .ok t) :
    Conveyed [(record.assetId, units)] s t ∧ units ≠ 0 := by
  obtain ⟨filled, hfilled, h⟩ := bind_ok.mp h
  obtain ⟨received, hreceived, h⟩ := bind_ok.mp h
  obtain ⟨hfill, hne⟩ := lifecycleFill_conveyed hfilled
  obtain ⟨hkept, hportfolio, hshares⟩ := receiveParts_conveyed hreceived
  have hconveyed : Conveyed [(record.assetId, units)] s received := by
    refine ⟨hfill.kept.trans hkept, fun asset => ?_, fun asset hnone strategyId => ?_⟩
    · rw [held_eq, hportfolio]
      exact hfill.held asset
    · rw [hshares asset (hnone (record.assetId, units) (by simp)).symm]
      exact hfill.shares asset hnone strategyId
  exact ⟨hconveyed.trans (remark_conveyed h), hne⟩

theorem deliver_conveyed {contract : ContractRecord} {d : Deliverable}
    {units price multiplier : Decimal}
    (h : s.deliver c rates contract d parts units price multiplier timestamp = .ok t) :
    Conveyed [(d.assetId, units)] s t ∧ units ≠ 0 := by
  obtain ⟨terms, hterms, h⟩ := bind_ok.mp h
  rw [← (requireDeliverable_declares hterms).2]
  exact receive_conveyed h

theorem convertFor_conveyed {conversion : Option (Decimal × String × String)}
    (h : s.convertFor conversion rates timestamp financed = .ok t) : Conveyed [] s t := by
  unfold PipelineState.convertFor at h
  split at h
  · obtain rfl := pure_ok.mp h
    exact .of_same (.refl s) (fun _ => rfl) rfl
  · obtain ⟨⟨portfolio, conversion⟩, hconvert, h⟩ := bind_ok.mp h
    obtain rfl := pure_ok.mp h
    obtain ⟨_, _, -, -, -, rfl⟩ := convertCash_ok (inBook_ok.mp hconvert)
    exact .of_same ⟨rfl, fun _ => rfl, fun _ => rfl⟩ (fun _ => rfl) rfl

theorem bookPackage_conveyed {plan : PackagePlan}
    (h : s.bookPackage c rates plan parts timestamp = .ok t) :
    Conveyed (plan.components.map fun k => (k.record.assetId, k.units)) s t := by
  obtain ⟨funded, hfunded, h⟩ := bind_ok.mp h
  obtain ⟨moved, hmoved, h⟩ := bind_ok.mp h
  have hcomponents : ∀ {components : List Component} {u v : PipelineState},
      components.foldlM (PipelineState.bookComponent c rates parts plan.financed timestamp) u =
        .ok v → Conveyed (components.map fun k => (k.record.assetId, k.units)) u v := by
    intro components
    induction components with
    | nil =>
      intro u v h
      obtain rfl := pure_ok.mp h
      exact .of_same (.refl u) (fun _ => rfl) rfl
    | cons k components ih =>
      intro u v h
      rw [List.foldlM_cons] at h
      obtain ⟨w, hw, h⟩ := bind_ok.mp h
      obtain ⟨own, -, hw⟩ := bind_ok.mp hw
      exact (receive_conveyed hw).1.trans (ih h)
  have hall := ((convertFor_conveyed hfunded).trans (hcomponents hmoved)).trans
    (convertFor_conveyed h)
  rwa [List.nil_append, List.append_nil] at hall

variable {o : DeclaredOption} {closing price : Decimal}

/-- **Contracts surrendered** leave the account, and each strategy its part. -/
theorem surrender_conveyed (h : s.surrender c o closing price parts timestamp = .ok t) :
    Conveyed [(o.record.assetId, -closing)] s t ∧
      t.allocation = s.allocation.applyLifecycle o.record.assetId parts := by
  obtain ⟨f, portfolio, hasset, hquantity, -, hfill, rfl⟩ := surrender_ok h
  have hkept := applyLifecycle_kept (s := s.allocation) o.record.assetId parts none
  refine ⟨⟨.of_entries rfl hkept, fun asset => ?_, ?_⟩, rfl⟩
  · rw [movedOf_singleton, ← hasset, ← hquantity]
    exact applyFill_units hfill asset
  · intro asset hnone strategyId
    have hasset : asset ≠ o.record.assetId := (hnone (o.record.assetId, -closing) (by simp)).symm
    by_cases hrecorded : s.allocation.Recorded
    · refine (positionOf_applyLifecycle _ _ _ hrecorded strategyId asset).trans ?_
      simp [hasset]
    · simp only [PipelineState.withPortfolio, PipelineState.withAllocation,
        applyLifecycle_unrecorded _ _ _ hrecorded]

theorem Declares.eq {record record' : ContractRecord} {economics economics' : InstrumentEconomics}
    (h : Declares c record economics) (h' : Declares c record' economics')
    (hasset : record.assetId = record'.assetId) : record = record' ∧ economics = economics' := by
  have hrecord : record = record' :=
    Option.some.inj (h.declared.symm.trans (hasset ▸ h'.declared))
  subst hrecord
  exact ⟨rfl, Except.ok.inj (h.booked.symm.trans h'.booked)⟩

theorem componentCosts_length {cost : Decimal} {contract : String} {found : List FoundComponent}
    {costs : List Decimal} (hfound : found ≠ [])
    (h : s.componentCosts cost contract found = .ok costs) : costs.length = found.length := by
  unfold PipelineState.componentCosts at h
  split at h
  · rw [← pure_ok.mp h]
    rfl
  · obtain ⟨worth, hworth, h⟩ := bind_ok.mp h
    obtain ⟨_, -, h⟩ := bind_ok.mp h
    obtain rfl := pure_ok.mp h
    have hlength : worth.length = found.length := length_mapM hworth
    have hpos : 0 < found.length := List.length_pos_iff.mpr hfound
    simp only [apportionedCost, List.length_append, List.length_map, List.length_dropLast,
      List.length_singleton]
    omega

/-- **The components of a package planned** are its deliverables that have whole units. -/
theorem packagePlan_components {plan : PackagePlan}
    (h : s.packagePlan c o closing timestamp rates = .ok plan) :
    (∀ k ∈ plan.components, ∃ d ∈ o.terms.deliverables, Declares c k.record k.economics ∧
      k.record.assetId = d.assetId ∧ 0 < c.wholePart k.economics (multiply d.units |closing|) ∧
      k.units = multiply (o.sign closing) (c.wholePart k.economics (multiply d.units |closing|))) ∧
    ∀ d ∈ o.terms.deliverables, ∀ record economics, Declares c record economics →
      record.assetId = d.assetId → 0 < c.wholePart economics (multiply d.units |closing|) →
      ∃ k ∈ plan.components, k.record.assetId = d.assetId := by
  obtain ⟨_, found, _, _, costs, hfound, rfl, hsome, hcosts, hcomponents⟩ := packagePlan_ok h
  constructor
  · intro k hk
    obtain ⟨e, he, hk⟩ := mem_mapM hcomponents hk
    obtain ⟨hrecord, heconomics, hunits⟩ := planComponent_ok hk
    obtain ⟨hf, hpos⟩ := List.mem_filter.mp (List.of_mem_zip he).1
    obtain ⟨d, hd, hcomponent⟩ := mem_mapM hfound hf
    obtain ⟨hdeclares, hasset, hwhole⟩ := findComponent_ok hcomponent
    rw [hrecord, heconomics, hunits]
    exact ⟨d, hd, hdeclares, hasset, hwhole ▸ of_decide_eq_true hpos, by rw [hwhole]⟩
  · intro d hd record economics hdeclares hasset hpos
    obtain ⟨f, hf, hcomponent⟩ := mapM_mem hfound hd
    obtain ⟨hfound', hasset', hwhole⟩ := findComponent_ok hcomponent
    obtain ⟨-, heconomics⟩ := hfound'.eq hdeclares (hasset'.trans hasset.symm)
    have hmem : f ∈ found.filter fun f => decide (0 < f.whole) := by
      refine List.mem_filter.mpr ⟨hf, decide_eq_true ?_⟩
      rw [hwhole, heconomics]
      exact hpos
    have hlength := componentCosts_length hsome hcosts
    obtain ⟨i, hi, hget⟩ := List.mem_iff_getElem.mp hmem
    have hcost : i < costs.length := hlength ▸ hi
    have hzip : (f, costs[i]) ∈ (found.filter fun f => decide (0 < f.whole)).zip costs := by
      rw [List.mem_iff_getElem]
      refine ⟨i, by rw [List.length_zip, hlength, Nat.min_self]; exact hi, ?_⟩
      rw [List.getElem_zip, hget]
    obtain ⟨k, hk, hplan⟩ := mapM_mem hcomponents hzip
    exact ⟨k, hk, by rw [(planComponent_ok hplan).1]; exact hasset'⟩

def DeclaredOption.deliversItself (c : RunConfig) (o : DeclaredOption) (closing : Decimal) : Prop :=
  o.terms.settlement = .physical ∧ ∃ d ∈ o.terms.deliverables, d.assetId = o.record.assetId ∧
    (o.terms.isSingle = true ∨ 0 < c.wholePart o.economics (multiply d.units |closing|))

theorem DeclaredOption.sign_cases (o : DeclaredOption) (closing : Decimal) :
    o.sign closing = 1 ∨ o.sign closing = -1 := by
  unfold DeclaredOption.sign OptionTerms.direction
  split_ifs <;> simp

theorem DeclaredOption.sign_mul_pos (o : DeclaredOption) (closing : Decimal) {whole : Decimal}
    (hwhole : 0 < whole) : 0 < o.sign closing * multiply (o.sign closing) whole := by
  rcases o.sign_cases closing with hsign | hsign
  · rw [hsign, multiply, one_mul, one_mul]
    exact inContext_pos hwhole
  · rw [hsign, multiply, neg_one_mul, neg_one_mul, neg_pos]
    exact inContext_neg (neg_neg_of_pos hwhole)

/-- **An option resolved** surrenders its contracts, and what it delivers is units of
    itself exactly where its terms name it. -/
theorem resolveOption_conveyed {underlyingValue : Option Decimal} {instructed : Bool}
    (hd : Declares c o.record o.economics)
    (h : s.resolveOption c o closing underlyingValue parts timestamp rates instructed = .ok t) :
    ∃ price u moved, s.surrender c o closing price parts timestamp = .ok u ∧
      Conveyed moved u t ∧
      (movedOf moved o.record.assetId ≠ 0 ↔ ∃ e ∈ moved, e.1 = o.record.assetId) ∧
      (o.deliversItself c closing ↔ ∃ e ∈ moved, e.1 = o.record.assetId) := by
  unfold PipelineState.resolveOption at h
  cases hsettlement : o.terms.settlement with
  | cash =>
    rw [hsettlement] at h
    obtain ⟨paid, -, h⟩ := bind_ok.mp h
    refine ⟨paid, t, [], h, .of_same (.refl t) (fun _ => rfl) rfl, by simp [movedOf], ?_⟩
    simp [DeclaredOption.deliversItself, hsettlement]
  | physical =>
    rw [hsettlement] at h
    obtain ⟨_, -, h⟩ := bind_ok.mp h
    split_ifs at h with hsingle
    · obtain ⟨terms, -, h⟩ := bind_ok.mp h
      obtain ⟨u, hsurrendered, h⟩ := bind_ok.mp h
      obtain ⟨v, hdelivered, h⟩ := bind_ok.mp h
      obtain ⟨_, -, h⟩ := bind_ok.mp h
      obtain rfl := pure_ok.mp h
      obtain ⟨hconveyed, hne⟩ := deliver_conveyed hdelivered
      have hbasket : o.terms.basket = [] := by
        simp only [OptionTerms.isSingle, Bool.and_eq_true] at hsingle
        exact List.isEmpty_iff.mp hsingle.1.1.1
      refine ⟨0, u, _, hsurrendered, hconveyed, ?_, ?_⟩
      · rw [movedOf_singleton]
        simp only [List.mem_singleton, exists_eq_left, eq_comm (a := o.record.assetId)]
        split_ifs with hasset <;> simp [hasset, hne]
      · simp [DeclaredOption.deliversItself, hsettlement, hsingle, OptionTerms.deliverables,
          hbasket]
    · obtain ⟨plan, hplan, h⟩ := bind_ok.mp h
      obtain ⟨u, hsurrendered, h⟩ := bind_ok.mp h
      obtain ⟨v, hbooked, h⟩ := bind_ok.mp h
      obtain ⟨_, -, h⟩ := bind_ok.mp h
      obtain rfl := pure_ok.mp h
      obtain ⟨hplanned, hall⟩ := packagePlan_components hplan
      refine ⟨0, u, _, hsurrendered, bookPackage_conveyed hbooked,
        @movedOf_ne_zero _ (o.sign closing) _ ?_, ?_⟩
      · intro e he _
        obtain ⟨k, hk, rfl⟩ := List.mem_map.mp he
        obtain ⟨d, -, -, -, hpos, hunits⟩ := hplanned k hk
        rw [hunits]
        exact o.sign_mul_pos closing hpos
      · constructor
        · rintro ⟨-, d, hmem, hitself, hsingle' | hpos⟩
          · exact absurd hsingle' hsingle
          · obtain ⟨k, hk, hasset⟩ := hall d hmem _ _ hd hitself.symm hpos
            exact ⟨_, List.mem_map_of_mem hk, hasset.trans hitself⟩
        · rintro ⟨e, he, hitself⟩
          obtain ⟨k, hk, rfl⟩ := List.mem_map.mp he
          obtain ⟨d, hmem, hdeclares, hasset, hpos, -⟩ := hplanned k hk
          obtain ⟨hrecord, heconomics⟩ := hdeclares.eq hd hitself
          exact ⟨hsettlement, d, hmem, hasset.symm.trans hitself, Or.inr (heconomics ▸ hpos)⟩

end AlphaLab
