/-
  What a holding exchange does to a run's book, instrument by instrument.

  * `Planning.Opens`: what a planned leg opens a holding by, and which legs are
    planned (`exchangePlan_opens`);
  * `exchange_book`: an accepted exchange leaves every position it was not about,
    joins each leg to what is held of it or opens it as its plan says, and
    neither awaits a mark nor moves a price.
-/
import AlphaLab.Runtime.BookMoves
import AlphaLab.Runtime.MarkRuns

namespace AlphaLab

open Fallible

structure Planning.Opens (p : Planning) (leg : ExchangeLeg) (h : ExchangedHolding) : Prop where
  asset : h.assetId = leg.assetId
  economics : h.economics = p.economics leg
  units : h.quantity ≠ 0
  price : ∀ price, p.ctx.marketPrices.get? leg.assetId = some price → h.price = price

section
variable {p : Planning}

theorem leg_opens {leg : ExchangeLeg} {planned planned' : Planned} (hsign : p.sign ≠ 0)
    (h : p.leg planned leg = .ok planned') :
    p.whole leg = 0 ∧ planned'.legs = planned.legs ∨
      p.whole leg ≠ 0 ∧ ∃ e, p.Opens leg e ∧ planned'.legs = planned.legs ++ [(leg, e)] := by
  simp only [Planning.leg, bind_ok, require_ok] at h
  obtain ⟨-, -, whole, hwhole, ⟨mid, carried⟩, hfrac, h⟩ := h
  have hw : whole = p.whole leg := by
    rw [Planning.whole, Planning.received, hwhole]
  subst hw
  obtain ⟨-, hmid⟩ := payFraction_carried hfrac
  by_cases hzero : p.whole leg = 0
  · rw [if_pos hzero, pure_ok] at h
    exact Or.inl ⟨hzero, h ▸ hmid⟩
  · rw [if_neg hzero] at h
    obtain ⟨basis, -, h⟩ := bind_ok.mp h
    obtain rfl := pure_ok.mp h
    refine Or.inr ⟨hzero, _, ⟨rfl, rfl, ?_, ?_⟩, by rw [hmid]⟩
    · simp only [multiply, ne_eq, inContext_eq_zero, mul_eq_zero, hzero, or_false]
      exact hsign
    · intro price hprice
      simp only [hprice, Option.getD_some]

theorem legs_open (hsign : p.sign ≠ 0) :
    ∀ {legs : List ExchangeLeg} {planned planned' : Planned},
      legs.foldlM p.leg planned = .ok planned' →
      (∀ e ∈ planned'.legs, e ∈ planned.legs ∨ ∃ leg ∈ legs, p.whole leg ≠ 0 ∧ p.Opens leg e.2) ∧
        (∀ e ∈ planned.legs, e ∈ planned'.legs) ∧
        ∀ leg ∈ legs, p.whole leg ≠ 0 → ∃ e ∈ planned'.legs, p.Opens leg e.2
  | [], planned, planned', h => by
    rw [List.foldlM_nil, pure_ok] at h
    subst h
    exact ⟨fun e he => Or.inl he, fun e he => he, by simp⟩
  | leg :: legs, planned, planned', h => by
    rw [List.foldlM_cons, bind_ok] at h
    obtain ⟨mid, hmid, h⟩ := h
    obtain ⟨hfrom, hkept, hall⟩ := legs_open hsign h
    have hfirst : (∀ e ∈ mid.legs, e ∈ planned.legs ∨ p.whole leg ≠ 0 ∧ p.Opens leg e.2) ∧
        (∀ e ∈ planned.legs, e ∈ mid.legs) ∧
        (p.whole leg ≠ 0 → ∃ e ∈ mid.legs, p.Opens leg e.2) := by
      rcases leg_opens hsign hmid with ⟨hzero, hlegs⟩ | ⟨hwhole, e, hopens, hlegs⟩
      · rw [hlegs]
        exact ⟨fun e he => Or.inl he, fun e he => he, fun hne => absurd hzero hne⟩
      · rw [hlegs]
        refine ⟨?_, fun e he => by simp [he], fun _ => ⟨(leg, e), by simp, hopens⟩⟩
        intro e' he'
        rcases List.mem_append.mp he' with he' | he'
        · exact Or.inl he'
        · rw [List.mem_singleton.mp he']
          exact Or.inr ⟨hwhole, hopens⟩
    refine ⟨?_, fun e he => hkept e (hfirst.2.1 e he), ?_⟩
    · intro e he
      rcases hfrom e he with he | ⟨leg', hleg', hopens⟩
      · rcases hfirst.1 e he with he | hopens
        · exact Or.inl he
        · exact Or.inr ⟨leg, by simp, hopens⟩
      · exact Or.inr ⟨leg', by simp [hleg'], hopens⟩
    · intro leg' hleg' hwhole
      rcases List.mem_cons.mp hleg' with rfl | hleg'
      · obtain ⟨e, he, hopens⟩ := hfirst.2.2 hwhole
        exact ⟨e, hkept e he, hopens⟩
      · exact hall leg' hleg' hwhole

end

variable {ctx : ExchangeContext} {units : CurrencyUnits} {held : Position}

/-- **The holdings of a plan**: each opens a leg of whole units, and each such leg has one. -/
theorem exchangePlan_opens {x : HoldingExchange} {at_ : Instant} {rates : FxRates}
    {plan : ExchangePlan} (h : exchangePlan ctx units x held at_ rates = .ok plan) :
    (∀ e ∈ plan.legs.map Prod.snd, ∃ leg ∈ x.legs,
      (planning ctx units x held at_ rates).whole leg ≠ 0 ∧
      (planning ctx units x held at_ rates).Opens leg e) ∧
    ∀ leg ∈ x.legs, (planning ctx units x held at_ rates).whole leg ≠ 0 →
      ∃ e ∈ plan.legs.map Prod.snd, (planning ctx units x held at_ rates).Opens leg e := by
  simp only [exchangePlan, bind_ok, pure_ok] at h
  obtain ⟨legs, hlegs, planned, hcash, rfl⟩ := h
  have hsame : planned.legs = legs.legs := by
    unfold Planning.cash at hcash
    split_ifs at hcash
    · rw [← pure_ok.mp hcash]
    · simp only [bind_ok, pure_ok] at hcash
      obtain ⟨-, -, converted, -, rfl⟩ := hcash
      rfl
  have hsign : (planning ctx units x held at_ rates).sign ≠ 0 := by
    simp only [planning]
    split_ifs <;> norm_num
  obtain ⟨hfrom, -, hall⟩ := legs_open hsign hlegs
  simp only [hsame]
  constructor
  · intro e he
    obtain ⟨planned', hplanned, rfl⟩ := List.mem_map.mp he
    rcases hfrom planned' hplanned with hnone | h
    · cases hnone
    · exact h
  · intro leg hleg hwhole
    obtain ⟨e, he, hopens⟩ := hall leg hleg hwhole
    exact ⟨e.2, List.mem_map_of_mem he, hopens⟩

/-! ## The positions -/

def Position.Resized (p p' : Position) : Prop :=
  ∃ units basis timestamp, units ≠ 0 ∧
    p' = p.rebased units basis p.realizedPnl p.marketPrice timestamp

theorem Position.Resized.terms {p p' : Position} (h : p.Resized p') : p.SameTerms p' := by
  obtain ⟨units, basis, timestamp, -, rfl⟩ := h
  exact p.rebasedAt_terms ..

/-- What a leg received makes of what was held of it: resized, or opened. -/
def LegJoins (before : Option Position) (leg : ExchangedHolding) (after : Position) : Prop :=
  (∃ e, before = some e ∧ e.quantity ≠ 0 ∧ e.Resized after) ∨
    (∀ e, before = some e → e.quantity = 0) ∧ after.Standing ∧ after.assetId = leg.assetId ∧
      after.economics = leg.economics ∧ after.marketPrice = leg.price

variable {timestamp : Instant} {positions positions' : Dict String Position}

theorem receiveLeg_joins {leg : ExchangedHolding} (hunits : leg.quantity ≠ 0)
    (h : receiveLeg units timestamp positions leg = .ok positions') : ∃ after,
    positions' = positions.set leg.assetId after ∧
      LegJoins (positions.get? leg.assetId) leg after := by
  simp only [receiveLeg, bind_ok] at h
  obtain ⟨basis, -, h⟩ := h
  cases hex : (positions.get? leg.assetId).filter (·.quantity ≠ 0) with
  | some e =>
    rw [hex] at h
    obtain ⟨_, hside, h⟩ := bind_ok.mp h
    obtain ⟨hget, he⟩ := Option.filter_eq_some_iff.mp hex
    have hne : e.quantity ≠ 0 := by simpa using he
    refine ⟨_, (pure_ok.mp h).symm, Or.inl ⟨e, hget, hne, _, _, timestamp, ?_, rfl⟩⟩
    -- two holdings of one side do not cancel
    have hside := decide_eq_decide.mp (require_ok.mp hside)
    rcases hne.lt_or_gt with hneg | hpos
    · have := hunits.lt_or_gt.resolve_right fun hleg => hneg.not_gt (hside.mpr hleg)
      linarith
    · have := hside.mp hpos
      linarith
  | none =>
    rw [hex] at h
    obtain ⟨flat, hflat, h⟩ := bind_ok.mp h
    obtain ⟨hasset, -, hecon, -⟩ := flatPosition_terms (orRefuse_ok.mp hflat)
    refine ⟨_, (pure_ok.mp h).symm, Or.inr ⟨?_, flat.rebasedAt_standing _ _ _ _ _ hunits, ?_, ?_,
      rfl⟩⟩
    · intro e he
      simpa using Option.filter_eq_none_iff.mp hex e he
    · exact hasset
    · exact hecon

/-- Legs of distinct assets received: each joins, and nothing else moves. -/
theorem receiveLegs_join :
    ∀ {legs : List ExchangedHolding} {positions positions' : Dict String Position},
      legs.foldlM (receiveLeg units timestamp) positions = .ok positions' →
      (∀ leg ∈ legs, leg.quantity ≠ 0) → (legs.map (·.assetId)).Nodup →
      (∀ a, a ∉ legs.map (·.assetId) → positions'.get? a = positions.get? a) ∧
        ∀ leg ∈ legs, ∃ after, positions'.get? leg.assetId = some after ∧
          LegJoins (positions.get? leg.assetId) leg after
  | [], positions, positions', h, _, _ => by
    rw [List.foldlM_nil, pure_ok] at h
    subst h
    exact ⟨fun _ _ => rfl, by simp⟩
  | leg :: legs, positions, positions', h, hunits, hnd => by
    rw [List.foldlM_cons, bind_ok] at h
    obtain ⟨mid, hmid, h⟩ := h
    rw [List.map_cons, List.nodup_cons] at hnd
    obtain ⟨after, rfl, hjoins⟩ := receiveLeg_joins (hunits leg (by simp)) hmid
    obtain ⟨hothers, hlegs⟩ := receiveLegs_join h (fun e he => hunits e (by simp [he])) hnd.2
    constructor
    · intro a ha
      rw [List.map_cons, List.mem_cons, not_or] at ha
      rw [hothers a ha.2, Dict.get?_set_of_ne _ _ ha.1]
    · intro leg' hleg'
      rcases List.mem_cons.mp hleg' with rfl | hleg'
      · exact ⟨after, (hothers _ hnd.1).trans (Dict.get?_set_self _ _ _), hjoins⟩
      · have hne : leg'.assetId ≠ leg.assetId := by
          intro he
          exact hnd.1 (he ▸ List.mem_map_of_mem hleg')
        obtain ⟨after', hafter', hjoins'⟩ := hlegs leg' hleg'
        rw [Dict.get?_set_of_ne _ _ hne] at hjoins'
        exact ⟨after', hafter', hjoins'⟩

theorem exchangedHolding_resized {x : ExchangeBooking} (hne : held.quantity ≠ 0)
    (h : exchangedHolding units x held positions = .ok positions') :
    (∀ a, a ≠ x.assetId → positions'.get? a = positions.get? a) ∧
      ∀ q, positions'.get? x.assetId = some q → held.Resized q := by
  have hset : ∀ units basis, units ≠ 0 → (∀ a, a ≠ x.assetId → (positions.set x.assetId
      (held.rebased units basis held.realizedPnl held.marketPrice x.timestamp)).get? a =
        positions.get? a) ∧
      ∀ q, (positions.set x.assetId (held.rebased units basis held.realizedPnl held.marketPrice
        x.timestamp)).get? x.assetId = some q → held.Resized q := by
    intro units basis hunits
    refine ⟨fun a ha => Dict.get?_set_of_ne _ _ ha, ?_⟩
    intro q hq
    rw [Dict.get?_set_self] at hq
    obtain rfl := Option.some.inj hq
    exact ⟨units, basis, x.timestamp, hunits, rfl⟩
  unfold exchangedHolding at h
  simp only at h
  split at h
  · split_ifs at h with hkept
    · obtain rfl := pure_ok.mp h
      refine ⟨fun a ha => by rw [Dict.get?_delete, if_neg ha], ?_⟩
      intro q hq
      rw [Dict.get?_delete_self] at hq
      cases hq
    · obtain rfl := pure_ok.mp h
      exact hset _ _ hkept
  · obtain ⟨retained, -, h⟩ := bind_ok.mp h
    obtain rfl := pure_ok.mp h
    exact hset _ _ hne

/-- What an exchange of `held` does to the book. -/
structure ExchangeMoves (x : HoldingExchange) (p : Planning) (before after : PortfolioState) :
    Prop where
  marks : after.pendingMarks = before.pendingMarks
  others : ∀ asset, asset ≠ x.assetId → (∀ leg ∈ x.legs, p.whole leg ≠ 0 → leg.assetId ≠ asset) →
    after.positions.get? asset = before.positions.get? asset
  received : ∀ leg ∈ x.legs, p.whole leg ≠ 0 → ∃ e q, p.Opens leg e ∧
    after.positions.get? leg.assetId = some q ∧ LegJoins (before.positions.get? leg.assetId) e q
  holding : ∀ q, after.positions.get? x.assetId = some q → ∃ held,
    before.positions.get? x.assetId = some held ∧ held.Resized q

def ExchangeRequest.unitsOf (r : ExchangeRequest) (held : Position) : Decimal :=
  r.part.elim held.quantity (·.values.sum)

variable {r : ExchangeRequest}

theorem takenPart_units {taken : ExchangedPart} (h : takenPart ctx units held r = .ok taken) :
    taken.exchanged.quantity = r.unitsOf held := by
  unfold takenPart at h
  unfold ExchangeRequest.unitsOf
  cases hpart : r.part with
  | none =>
    rw [hpart] at h
    rw [← pure_ok.mp h]
    rfl
  | some part =>
    rw [hpart] at h
    simp only [exchangedPart] at h
    split at h
    · cases h
    · split_ifs at h with hq
      · rw [← pure_ok.mp h, Option.elim_some, ← sum_taken]
        exact hq.symm
      · obtain ⟨basis, -, h⟩ := bind_ok.mp h
        rw [← pure_ok.mp h, Option.elim_some, ← sum_taken]
        rfl

/-- **What an accepted exchange did**: nothing, where nothing is held; otherwise the
    holding and its legs moved as planned. -/
theorem exchangeHolding_moves {s s' : PortfolioState} (h : exchangeHolding ctx s r = .ok s') :
    ((∀ q, s.positions.get? r.exchange.assetId = some q → q.quantity = 0) ∧ s' = s) ∨
    ∃ held exchanged, s.positions.get? r.exchange.assetId = some held ∧ held.quantity ≠ 0 ∧
      exchanged.quantity = r.unitsOf held ∧
      ExchangeMoves r.exchange (planning ctx s.account.currencyUnits r.exchange exchanged
        r.timestamp r.rates) s s' := by
  rcases exchangeHolding_ok h with ⟨hnone, rfl⟩ | ⟨held, booking, hget, hne, hbooking, happly⟩
  · exact Or.inl ⟨flat_of_filter hnone, rfl⟩
  obtain ⟨taken, plan, parts, htaken, hplan, -, rfl⟩ := exchangeBooking_ok hbooking
  obtain ⟨held', received, positions, _, _, _, _, hget', -, hreceived, hpositions, -, -, -, -,
    rfl⟩ := applyExchange_ok happly
  obtain rfl := Option.some.inj (hget.symm.trans hget')
  obtain ⟨hdelivers, hnodup, hnotin⟩ := exchangePlan_legs hplan
  obtain ⟨hfrom, hall⟩ := exchangePlan_opens hplan
  have hunits : ∀ e ∈ plan.legs.map Prod.snd, e.quantity ≠ 0 := by
    intro e he
    obtain ⟨leg, -, -, hopens⟩ := hfrom e he
    exact hopens.units
  obtain ⟨hothers, hjoins⟩ := receiveLegs_join hreceived hunits hnodup
  obtain ⟨hbeside, hheld⟩ := exchangedHolding_resized hne hpositions
  refine Or.inr ⟨held, taken.exchanged, hget, hne, takenPart_units htaken, rfl, ?_, ?_, ?_⟩
  · intro asset hasset hlegs
    refine (hbeside asset hasset).trans (hothers asset ?_)
    intro hmem
    obtain ⟨e, he, rfl⟩ := List.mem_map.mp hmem
    obtain ⟨leg, hleg, hwhole, hopens⟩ := hfrom e he
    exact hlegs leg hleg hwhole hopens.asset.symm
  · intro leg hleg hwhole
    obtain ⟨e, he, hopens⟩ := hall leg hleg hwhole
    obtain ⟨q, hq, hlegjoins⟩ := hjoins e he
    have hne' : leg.assetId ≠ r.exchange.assetId := by
      intro heq
      exact hnotin (heq ▸ hopens.asset ▸ List.mem_map_of_mem he)
    rw [hopens.asset] at hq hlegjoins
    exact ⟨e, q, hopens, (hbeside _ hne').trans hq, hlegjoins⟩
  · intro q hq
    exact ⟨held, hget, hheld q hq⟩

/-- **An exchange in a run**: its orders are cancelled, and its book moves. -/
theorem exchange_book {config : PipelineConfig} {s t : PipelineState}
    (h : s.applyExchange config ctx r = .ok t) : ∃ current,
    s.cancelWorking config r.exchange.assetId r.timestamp = .ok current ∧
      t.marketPrices = current.marketPrices ∧
      (((∀ q, current.portfolio.positions.get? r.exchange.assetId = some q → q.quantity = 0) ∧
          t = current) ∨
        exchangeHolding { ctx with shares := current.allocation.sharesOf r.exchange.assetId }
          current.portfolio r = .ok t.portfolio) := by
  obtain ⟨current, hcancel, h⟩ := bind_ok.mp h
  refine ⟨current, hcancel, ?_⟩
  cases hheld : (current.portfolio.positions.get? r.exchange.assetId).filter (·.quantity ≠ 0) with
  | none =>
    simp only [hheld] at h
    obtain rfl := pure_ok.mp h
    exact ⟨rfl, Or.inl ⟨flat_of_filter hheld, rfl⟩⟩
  | some held =>
    simp only [hheld] at h
    obtain ⟨taken, -, h⟩ := bind_ok.mp h
    obtain ⟨plan, -, h⟩ := bind_ok.mp h
    obtain ⟨parts, -, h⟩ := bind_ok.mp h
    obtain ⟨portfolio, hportfolio, h⟩ := bind_ok.mp h
    obtain ⟨allocation, -, h⟩ := bind_ok.mp h
    obtain rfl := pure_ok.mp h
    exact ⟨rfl, Or.inr (mapError_ok.mp hportfolio)⟩

end AlphaLab
