/-
  What an exchange in the holding's own currency splits the basis into.

  The declared shares of the basis sum to one, but each part is rounded on its
  own: every leg's basis, the retained basis, the consideration and the P&L.

  * `legResidue`, `cashResidue` and `keptResidue` are what a part books beyond
    its declared share of the basis exchanged.
-/
import AlphaLab.Portfolio.ExchangeAccounting
import AlphaLab.Runtime.ExchangePlan

namespace AlphaLab

open Fallible

/-! ## One leg's split -/

namespace Planning

variable (p : Planning) (leg : ExchangeLeg)

def received : Decimal := multiply p.units leg.ratio

/-- The whole units of a leg a book can hold, of those received. -/
def whole : Decimal :=
  match p.wholeOf (p.ctx.declared leg.assetId) (p.received leg) with
  | .ok whole => whole
  | .error _ => 0

def fraction : Decimal := subtract (p.received leg) (p.whole leg)

def carried : Decimal := multiply p.basis leg.basisShare

def takenByFraction : Decimal := fractionBasis (p.carried leg) (p.fraction leg) (p.received leg)

def carriedByWhole : Decimal :=
  if p.fraction leg = 0 then p.carried leg
  else subtract (p.carried leg) (p.takenByFraction leg)

def currencyOf : String := (p.ctx.declared leg.assetId).elim p.source (·.currency)

def economics : Option InstrumentEconomics := (p.ctx.declared leg.assetId).bind (·.economics)

def inLieu : Decimal :=
  multiply (multiply (p.fraction leg) (leg.inLieuPrice.getD 0)) (multiplierOf (p.economics leg))

def delivered : Option ExchangedHolding :=
  if p.whole leg = 0 then none
  else some {
    assetId := leg.assetId
    quantity := multiply p.sign (p.whole leg)
    basis := p.carriedByWhole leg
    price := (p.ctx.marketPrices.get? leg.assetId).getD
      (divide (p.carriedByWhole leg) (multiply (p.whole leg) (multiplierOf (p.economics leg))))
    currency := p.source
    economics := p.economics leg }

/-- `paid` with a leg's fraction, where it has one. -/
def paidWith (paid : Decimal) : Decimal :=
  if p.fraction leg = 0 then paid else add paid (multiply p.sign (p.inLieu leg))

/-- `gained` with what a leg's fraction realizes, where it has one. -/
def gainedWith (gained : Decimal) : Decimal :=
  if p.fraction leg = 0 then gained
  else add gained (multiply p.sign (subtract (p.inLieu leg) (p.takenByFraction leg)))

variable (x : HoldingExchange)

/-- The cash an exchange pays or takes, its fractions and its cash part. -/
def consideration : Decimal :=
  let fractions := x.legs.foldl (fun paid leg => p.paidWith leg paid) 0
  if x.cashPerUnit = 0 then fractions
  else add fractions (multiply p.sign (multiply p.units x.cashPerUnit))

/-- The P&L an exchange realizes, by its fractions and its cash part. -/
def gain : Decimal :=
  let fractions := x.legs.foldl (fun gained leg => p.gainedWith leg gained) 0
  if x.cashPerUnit = 0 then fractions
  else add fractions (multiply p.sign (subtract (multiply p.units x.cashPerUnit)
    (multiply p.basis x.cashBasisShare)))

end Planning

/-! ## The legs planned -/

theorem multiply_ne_zero {x y : Decimal} (hx : x ≠ 0) (hy : y ≠ 0) : multiply x y ≠ 0 := by
  rcases (mul_ne_zero hx hy).lt_or_gt with h | h
  · exact (inContext_neg h).ne
  · exact (inContext_pos h).ne'

theorem planning_sign_ne_zero (ctx : ExchangeContext) (units : CurrencyUnits) (x : HoldingExchange)
    (held : Position) (at_ : Instant) (rates : FxRates) :
    (planning ctx units x held at_ rates).sign ≠ 0 := by
  simp only [planning]
  split_ifs <;> norm_num

/-- A planned holding is a leg's: some units, at the basis the leg's whole units carry. -/
structure Planning.Delivers (p : Planning) (leg : ExchangeLeg) (h : ExchangedHolding) : Prop where
  asset : h.assetId = leg.assetId
  some_units : h.quantity ≠ 0
  some_whole : p.whole leg ≠ 0
  currency : h.currency = p.currencyOf leg
  basis : p.convert (p.carriedByWhole leg) p.source (p.currencyOf leg) = .ok h.basis

variable {planned planned' : Planned} {currency : String}

variable {carried : Decimal}

/-- The basis a leg's fraction leaves its whole units. -/
theorem payFraction_carried {p : Planning} {leg : ExchangeLeg}
    {economics : Option InstrumentEconomics} (h : p.payFraction leg planned currency economics
      (p.received leg) (p.fraction leg) (p.carried leg) = .ok (planned', carried)) :
    carried = p.carriedByWhole leg ∧ planned'.legs = planned.legs := by
  unfold Planning.payFraction at h
  unfold Planning.carriedByWhole
  split_ifs at h ⊢ with hf
  · obtain ⟨rfl, rfl⟩ := Prod.mk.inj (pure_ok.mp h)
    exact ⟨rfl, rfl⟩
  · cases hprice : leg.inLieuPrice with
    | none => simp [hprice] at h
    | some price =>
      simp only [hprice, bind_ok, pure_ok, Prod.mk.injEq] at h
      obtain ⟨_, -, rfl, rfl⟩ := h
      exact ⟨rfl, rfl⟩

theorem leg_planned {p : Planning} (hsign : p.sign ≠ 0) {leg : ExchangeLeg}
    (h : p.leg planned leg = .ok planned') :
    ∃ l : List (ExchangeLeg × ExchangedHolding), planned'.legs = planned.legs ++ l ∧
      (∀ e ∈ l, p.Delivers leg e.2) ∧ (l.map (·.2.assetId)).Sublist [leg.assetId] := by
  simp only [Planning.leg, bind_ok, require_ok] at h
  obtain ⟨-, -, whole, hwhole, ⟨mid, carried⟩, hfrac, h⟩ := h
  have hw : whole = p.whole leg := by
    rw [Planning.whole, Planning.received, hwhole]
  subst hw
  obtain ⟨rfl, hmid⟩ := payFraction_carried hfrac
  split_ifs at h with hzero
  · exact ⟨[], by rw [← pure_ok.mp h, hmid, List.append_nil], by simp, by simp⟩
  · simp only [bind_ok, pure_ok] at h
    obtain ⟨basis, hbasis, rfl⟩ := h
    refine ⟨_, by rw [hmid], ?_, by simp⟩
    intro e he
    rw [List.mem_singleton.mp he]
    exact ⟨rfl, multiply_ne_zero hsign hzero, hzero, rfl, hbasis⟩

theorem legs_planned {p : Planning} (hsign : p.sign ≠ 0) :
    ∀ {legs : List ExchangeLeg} {planned planned' : Planned},
      legs.foldlM p.leg planned = .ok planned' →
      ∃ l : List (ExchangeLeg × ExchangedHolding), planned'.legs = planned.legs ++ l ∧
        (∀ e ∈ l, ∃ leg ∈ legs, p.Delivers leg e.2) ∧
        (l.map (·.2.assetId)).Sublist (legs.map (·.assetId))
  | [], planned, planned', h => by
    rw [List.foldlM_nil, pure_ok] at h
    exact ⟨[], by rw [h, List.append_nil], by simp, by simp⟩
  | leg :: legs, planned, planned', h => by
    rw [List.foldlM_cons, bind_ok] at h
    obtain ⟨mid, hmid, h⟩ := h
    obtain ⟨l, hl, hq, hsub⟩ := leg_planned hsign hmid
    obtain ⟨l', hl', hq', hsub'⟩ := legs_planned hsign h
    refine ⟨l ++ l', by rw [hl', hl, List.append_assoc], ?_, ?_⟩
    · intro e he
      rcases List.mem_append.mp he with he | he
      · exact ⟨leg, by simp, hq e he⟩
      · obtain ⟨leg', hleg', hdel⟩ := hq' e he
        exact ⟨leg', by simp [hleg'], hdel⟩
    · rw [List.map_append, List.map_cons, ← List.singleton_append]
      exact hsub.append hsub'

variable {ctx : ExchangeContext}

variable {at_ : Instant} {rates : FxRates} {plan : ExchangePlan}

/-- **The legs of a plan are those of the exchange**: units of distinct assets,
    none of them the one exchanged. -/
theorem exchangePlan_legs {units : CurrencyUnits} {x : HoldingExchange} {held : Position}
    (h : exchangePlan ctx units x held at_ rates = .ok plan) :
    (∀ h ∈ plan.legs.map Prod.snd, ∃ leg ∈ x.legs,
      (planning ctx units x held at_ rates).Delivers leg h) ∧
      ((plan.legs.map Prod.snd).map (·.assetId)).Nodup ∧
      x.assetId ∉ (plan.legs.map Prod.snd).map (·.assetId) := by
  simp only [exchangePlan, bind_ok, pure_ok] at h
  obtain ⟨legs, hlegs, planned, hcash, rfl⟩ := h
  have hsign := planning_sign_ne_zero ctx units x held at_ rates
  obtain ⟨l, hl, hdel, hsub⟩ := legs_planned hsign hlegs
  have hplanned : planned.legs = l := by
    have hsame : planned.legs = legs.legs := by
      unfold Planning.cash at hcash
      split_ifs at hcash
      · rw [← pure_ok.mp hcash]
      · simp only [bind_ok, pure_ok] at hcash
        obtain ⟨-, -, converted, -, rfl⟩ := hcash
        rfl
    rw [hsame, hl, List.nil_append]
  simp only [hplanned, List.map_map]
  refine ⟨?_, x.distinct.sublist hsub, fun hmem => x.notOwn (hsub.subset hmem)⟩
  intro h hh
  obtain ⟨e, he, rfl⟩ := List.mem_map.mp hh
  exact hdel e he

/-! ## In the holding's own currency -/

/-- An exchange whose legs and cash part are all in `currency`. -/
structure InOwnCurrency (ctx : ExchangeContext) (x : HoldingExchange) (currency : String) :
    Prop where
  legs : ∀ leg ∈ x.legs, ∀ record, ctx.declared leg.assetId = some record →
    record.currency = currency
  cash : x.cashPerUnit ≠ 0 → x.cashCurrency.getD currency = currency

section
variable {p : Planning}

/-- What is planned: cash and P&L in the holding's currency, and the legs delivered. -/
structure Planned.Is (planned : Planned) (currency : String) (paid gained : Decimal)
    (received : List ExchangedHolding) : Prop where
  only : ∀ c v, planned.consideration.get? c = some v → c = currency
  paid : (planned.consideration.get? currency).getD 0 = paid
  gained : planned.realized = gained
  received : planned.legs.map Prod.snd = received

theorem addConsideration_is {d : Dict String Decimal} {paid m : Decimal}
    (honly : ∀ c v, d.get? c = some v → c = currency) (hpaid : (d.get? currency).getD 0 = paid) :
    (∀ c v, (addConsideration d currency m).get? c = some v → c = currency) ∧
      ((addConsideration d currency m).get? currency).getD 0 = add paid m := by
  constructor
  · intro c v hv
    by_contra hc
    rw [addConsideration, Dict.get?_set_of_ne _ _ hc] at hv
    exact hc (honly c v hv)
  · rw [addConsideration, Dict.get?_set_self, Option.getD_some, hpaid]

theorem convert_own (amount : Decimal) (h : currency = p.source) :
    p.convert amount currency p.source = .ok amount := by
  rw [Planning.convert, if_pos (Or.inl h)]
  rfl

variable {paid gained : Decimal} {received : List ExchangedHolding}

/-- A leg's fraction planned in the holding's currency. -/
theorem payFraction_own {leg : ExchangeLeg} (h : p.payFraction leg planned p.source (p.economics
      leg) (p.received leg) (p.fraction leg) (p.carried leg) = .ok (planned', carried))
    (hp : planned.Is p.source paid gained received) :
    planned'.Is p.source (p.paidWith leg paid) (p.gainedWith leg gained) received := by
  unfold Planning.payFraction at h
  unfold Planning.paidWith Planning.gainedWith
  split_ifs at h ⊢ with hf
  · obtain ⟨rfl, rfl⟩ := Prod.mk.inj (pure_ok.mp h)
    exact hp
  · cases hprice : leg.inLieuPrice with
    | none => simp [hprice] at h
    | some price =>
      simp only [hprice, bind_ok, convert_own _ rfl, ok_inj, pure_ok, Prod.mk.injEq] at h
      obtain ⟨_, rfl, rfl, rfl⟩ := h
      obtain ⟨honly, hpaid⟩ := addConsideration_is (m := multiply p.sign (p.inLieu leg)) hp.only
        hp.paid
      have hin : multiply (multiply (p.fraction leg) price) (multiplierOf (p.economics leg)) =
          p.inLieu leg := by rw [Planning.inLieu, hprice, Option.getD_some]
      refine ⟨?_, ?_, ?_, hp.received⟩
      · rw [hin]
        exact honly
      · rw [hin]
        exact hpaid
      · simp only [hin, hp.gained, Planning.takenByFraction]

theorem leg_own {leg : ExchangeLeg} (h : p.leg planned leg = .ok planned')
    (hcur : ∀ record, p.ctx.declared leg.assetId = some record → record.currency = p.source)
    (hp : planned.Is p.source paid gained received) :
    planned'.Is p.source (p.paidWith leg paid) (p.gainedWith leg gained)
      (received ++ (p.delivered leg).toList) := by
  have hsource : p.currencyOf leg = p.source := by
    unfold Planning.currencyOf
    cases hd : p.ctx.declared leg.assetId with
    | none => rfl
    | some record => exact hcur record hd
  rw [Planning.currencyOf] at hsource
  simp only [Planning.leg, hsource, bind_ok, require_ok] at h
  obtain ⟨-, -, whole, hwhole, ⟨mid, carried⟩, hfrac, h⟩ := h
  have hw : whole = p.whole leg := by
    rw [Planning.whole, Planning.received, hwhole]
  subst hw
  have hmid := payFraction_own hfrac hp
  obtain ⟨rfl, -⟩ := payFraction_carried hfrac
  unfold Planning.delivered
  split_ifs at h ⊢ with hzero
  · rw [← pure_ok.mp h, Option.toList_none, List.append_nil]
    exact hmid
  · simp only [bind_ok, convert_own _ rfl, ok_inj, pure_ok] at h
    obtain ⟨_, rfl, rfl⟩ := h
    refine ⟨hmid.only, hmid.paid, hmid.gained, ?_⟩
    rw [List.map_append, hmid.received]
    rfl

theorem legs_own :
    ∀ {legs : List ExchangeLeg} {planned planned' : Planned} {paid gained : Decimal}
      {received : List ExchangedHolding}, legs.foldlM p.leg planned = .ok planned' →
      (∀ leg ∈ legs, ∀ record, p.ctx.declared leg.assetId = some record →
        record.currency = p.source) →
      planned.Is p.source paid gained received →
      planned'.Is p.source (legs.foldl (fun paid leg => p.paidWith leg paid) paid)
        (legs.foldl (fun gained leg => p.gainedWith leg gained) gained)
        (received ++ legs.filterMap p.delivered)
  | [], planned, planned', paid, gained, received, h, _, hp => by
    rw [List.foldlM_nil, pure_ok] at h
    simpa [← h] using hp
  | leg :: legs, planned, planned', paid, gained, received, h, hcur, hp => by
    rw [List.foldlM_cons, bind_ok] at h
    obtain ⟨mid, hmid, h⟩ := h
    have hleg := leg_own hmid (hcur leg (by simp)) hp
    have hrest := legs_own h (fun l hl => hcur l (by simp [hl])) hleg
    rw [List.foldl_cons, List.foldl_cons, List.filterMap_cons]
    cases hd : p.delivered leg with
    | none => simpa [hd] using hrest
    | some holding => simpa [hd] using hrest

theorem cash_own {x : HoldingExchange} (h : p.cash x planned = .ok planned')
    (hcur : x.cashPerUnit ≠ 0 → x.cashCurrency.getD p.source = p.source)
    (hp : planned.Is p.source paid gained received) :
    planned'.Is p.source
      (if x.cashPerUnit = 0 then paid else add paid (multiply p.sign (multiply p.units x.cashPerUnit)))
      (if x.cashPerUnit = 0 then gained else add gained (multiply p.sign
        (subtract (multiply p.units x.cashPerUnit) (multiply p.basis x.cashBasisShare))))
      received := by
  unfold Planning.cash at h
  split_ifs at h ⊢ with hzero
  · exact pure_ok.mp h ▸ hp
  · simp only [hcur hzero, bind_ok, require_ok, convert_own _ rfl, ok_inj, pure_ok] at h
    obtain ⟨-, -, _, rfl, rfl⟩ := h
    obtain ⟨honly, hpaid⟩ := addConsideration_is
      (m := multiply p.sign (multiply p.units x.cashPerUnit)) hp.only hp.paid
    exact ⟨honly, hpaid, by rw [hp.gained], hp.received⟩

end

theorem exchangePlan_own {units : CurrencyUnits} {x : HoldingExchange} {held : Position}
    (h : exchangePlan ctx units x held at_ rates = .ok plan)
    (hown : InOwnCurrency ctx x held.currency) :
    let p := planning ctx units x held at_ rates
    (∀ c v, plan.consideration.get? c = some v → c = held.currency) ∧
      (plan.consideration.get? held.currency).getD 0 = p.consideration x ∧
      plan.realized = p.gain x ∧ plan.legs.map Prod.snd = x.legs.filterMap p.delivered ∧
      plan.retainedBasis = x.retainedBasisShare.map (multiply held.basis ·) := by
  simp only [exchangePlan, bind_ok, pure_ok] at h
  obtain ⟨legs, hlegs, planned, hcash, rfl⟩ := h
  have hempty : ({} : Planned).Is held.currency 0 0 [] :=
    ⟨fun c v hv => by simp at hv, rfl, rfl, rfl⟩
  have hl := legs_own hlegs hown.legs hempty
  have hc := cash_own hcash hown.cash hl
  exact ⟨hc.only, hc.paid, hc.gained, by simpa using hc.received, rfl⟩

variable {r : ExchangeRequest}

variable {booking : ExchangeBooking}

theorem exchangeBooking_ok {units : CurrencyUnits} {held : Position}
    (h : exchangeBooking ctx units held r = .ok booking) : ∃ taken plan parts,
      takenPart ctx units held r = .ok taken ∧
      exchangePlan ctx units r.exchange taken.exchanged r.timestamp r.rates = .ok plan ∧
      legParts taken.shares plan.legs = .ok parts ∧ booking = {
        assetId := r.exchange.assetId
        received := plan.legs.map Prod.snd
        retainedBasis := plan.retainedBasis
        consideration := plan.consideration
        realized := plan.realized
        timestamp := r.timestamp
        reference := r.exchange.reference
        paysAt := r.paymentAt
        kept := taken.kept
        delivers := deliveries r parts
        convention := r.delivery } := by
  simp only [exchangeBooking, bind_ok, pure_ok] at h
  obtain ⟨taken, htaken, plan, hplan, parts, hparts, rfl⟩ := h
  exact ⟨taken, plan, parts, htaken, hplan, hparts, rfl⟩

theorem takenPart_currency {units : CurrencyUnits} {held : Position} {taken : ExchangedPart}
    (h : takenPart ctx units held r = .ok taken) : taken.exchanged.currency = held.currency := by
  unfold takenPart at h
  cases hpart : r.part with
  | none =>
    rw [hpart] at h
    rw [← pure_ok.mp h]
  | some part =>
    simp only [hpart, exchangedPart] at h
    split at h
    · cases h
    · split_ifs at h
      · rw [← pure_ok.mp h]
      · simp only [bind_ok, pure_ok] at h
        obtain ⟨basis, -, rfl⟩ := h
        exact (held.rebasedAt_terms ..).2.1

theorem inPortfolio_ok {α : Type} {x : Except PortfolioRefusal α} {a : α} :
    inPortfolio x = .ok a ↔ x = .ok a := by
  cases x <;> simp [inPortfolio, Except.mapError]

variable {s s' : PortfolioState}

/-- An accepted exchange left the book alone, holding nothing, or was booked. -/
theorem exchangeHolding_ok (h : exchangeHolding ctx s r = .ok s') :
    ((s.positions.get? r.exchange.assetId).filter (·.quantity ≠ 0) = none ∧ s' = s) ∨
    ∃ held booking, s.positions.get? r.exchange.assetId = some held ∧ held.quantity ≠ 0 ∧
      exchangeBooking ctx s.account.currencyUnits held r = .ok booking ∧
      applyExchange s booking = .ok s' := by
  simp only [exchangeHolding, bind_ok, require_ok] at h
  obtain ⟨-, -, -, -, h⟩ := h
  cases hheld : (s.positions.get? r.exchange.assetId).filter (·.quantity ≠ 0) with
  | none =>
    rw [hheld] at h
    exact Or.inl ⟨rfl, (pure_ok.mp h).symm⟩
  | some held =>
    simp only [hheld, bind_ok, inPortfolio_ok] at h
    obtain ⟨booking, hbooking, h⟩ := h
    obtain ⟨hget, hne⟩ := Option.filter_eq_some_iff.mp hheld
    exact Or.inr ⟨held, booking, hget, by simpa using hne, hbooking, h⟩

/-- **An accepted exchange keeps the books, and moves the gap by its shift.** -/
theorem exchangeHolding_gap {held : Position} (h : exchangeHolding ctx s r = .ok s')
    (hget : s.positions.get? r.exchange.assetId = some held) (hne : held.quantity ≠ 0) :
    ∃ booking, exchangeBooking ctx s.account.currencyUnits held r = .ok booking ∧
      (WellBooked s.account.currencyUnits s.positions →
        WellBooked s'.account.currencyUnits s'.positions) ∧
      ∀ c, gap s' c =
        gap s c + exchangeShift s.account.currencyUnits s.positions booking held c := by
  rcases exchangeHolding_ok h with ⟨hnone, -⟩ | ⟨held', booking, hget', -, hbooking, happly⟩
  · rw [hget] at hnone
    simp [hne] at hnone
  · obtain rfl : held = held' := Option.some.inj (hget.symm.trans hget')
    refine ⟨booking, hbooking, ?_⟩
    obtain ⟨taken, plan, parts, -, hplan, -, rfl⟩ := exchangeBooking_ok hbooking
    obtain ⟨hdel, hnd, hown⟩ := exchangePlan_legs hplan
    have hq : ∀ leg ∈ plan.legs.map Prod.snd, leg.quantity ≠ 0 := by
      intro leg hleg
      obtain ⟨_, -, hdelivers⟩ := hdel leg hleg
      exact hdelivers.some_units
    obtain ⟨held', hget', -, hwell, hgap⟩ := applyExchange_gap happly hq hnd hown
    obtain rfl : held = held' := Option.some.inj (hget.symm.trans hget')
    exact ⟨hwell, hgap⟩

/-! ## What each part books beyond its share -/

section
variable (units : CurrencyUnits) (positions : Dict String Position) (p : Planning)
  (x : HoldingExchange) (held : Position) (kept : Decimal × Decimal) (c : String)

def wholeShare (leg : ExchangeLeg) : Decimal :=
  p.basis * leg.basisShare * p.whole leg / p.received leg

/-- What a leg books in `c`, beyond its exact share of the basis exchanged. -/
def legResidue (leg : ExchangeLeg) : Decimal :=
  (if (p.delivered leg).bind (landsIn positions) = some c then
    moneyOf units (p.carriedByWhole leg) p.source else 0) -
  if c = p.source ∧ held.paysNotional = true then wholeShare p leg else 0

/-- What the cash parts move in `c`, beyond the exact share of the basis they
    are paid for; the consideration and the P&L are rounded apart. -/
def cashResidue : Decimal :=
  (if c = p.source then
    p.sign * (moneyOf units (p.consideration x) p.source - moneyOf units (p.gain x) p.source)
    else 0) -
  if c = p.source ∧ held.paysNotional = true then
    p.basis * x.cashBasisShare +
      ((x.legs.map fun leg => p.basis * leg.basisShare).sum - (x.legs.map (wholeShare p)).sum)
  else 0

/-- What is left in the holding beyond what it keeps and its exact retained share. -/
def keptResidue : Decimal :=
  if c = p.source ∧ held.paysNotional = true then
    p.sign * ((match x.retainedBasisShare with
        | none => Position.signed kept.1 kept.2
        | some share => Position.signed held.quantity
            (kept.2 + moneyOf units (multiply p.basis share) p.source)) -
      Position.signed held.quantity held.basis) +
    (p.basis - p.basis * x.retainedBasisShare.getD 0)
  else 0

/-- What the parts of an exchange book in `c` beyond their exact shares. -/
def splitResidue : Decimal :=
  (x.legs.map (legResidue units positions p held c)).sum + cashResidue units p x held c +
    keptResidue units p x held kept c

end

theorem roundDown_nonneg {x : Decimal} (h : 0 ≤ x) : 0 ≤ roundDown x := by
  rw [roundDown, if_pos h]
  exact_mod_cast Int.floor_nonneg.mpr h

theorem whole_nonneg {p : Planning} (hunits : 0 ≤ p.units) (leg : ExchangeLeg) :
    0 ≤ p.whole leg := by
  have hrec : 0 ≤ p.received leg := inContext_nonneg (mul_nonneg hunits leg.ratio_pos.le)
  unfold Planning.whole
  cases hw : p.wholeOf (p.ctx.declared leg.assetId) (p.received leg) with
  | error e => exact le_rfl
  | ok whole =>
    unfold Planning.wholeOf at hw
    cases hd : p.ctx.declared leg.assetId with
    | none =>
      rw [hd] at hw
      exact pure_ok.mp hw ▸ hrec
    | some record =>
      simp only [hd, bind_ok, pure_ok] at hw
      obtain ⟨booked, -, rfl⟩ := hw
      simp only [wholePart]
      cases booked.lot with
      | none =>
        simp only
        split_ifs
        exacts [roundDown_nonneg hrec, hrec]
      | some lot =>
        have hdiv : 0 ≤ divide (p.received leg) lot.lotSize :=
          inContext_nonneg (div_nonneg hrec lot.lotSize_pos.le)
        exact inContext_nonneg (mul_nonneg (roundDown_nonneg hdiv) lot.lotSize_pos.le)

theorem signed_multiply {sign w : Decimal} (hsign : sign = 1 ∨ sign = -1) (hw : 0 < w)
    (b : Decimal) : Position.signed (multiply sign w) b = sign * b := by
  rcases hsign with rfl | rfl
  · have hpos : 0 < multiply 1 w := inContext_pos (by linarith)
    rw [Position.signed_of_pos hpos, one_mul]
  · have hneg : multiply (-1) w < 0 := inContext_neg (by linarith)
    rw [Position.signed_of_neg hneg, neg_one_mul]

/-- The bases the legs land with, their residues and their shares. -/
theorem legShift_sum (units : CurrencyUnits) (positions : Dict String Position) {p : Planning}
    (hsign : p.sign = 1 ∨ p.sign = -1) (hunits : 0 ≤ p.units) (held : Position) (c : String)
    (legs : List ExchangeLeg) :
    ((legs.filterMap p.delivered).map (legShift units positions c)).sum =
      p.sign * ((legs.map (legResidue units positions p held c)).sum +
        if c = p.source ∧ held.paysNotional = true then (legs.map (wholeShare p)).sum else 0) := by
  induction legs with
  | nil => simp
  | cons leg legs ih =>
    rw [List.filterMap_cons, List.map_cons, List.map_cons, List.sum_cons, List.sum_cons]
    by_cases hzero : p.whole leg = 0
    · have hnone : p.delivered leg = none := by rw [Planning.delivered, if_pos hzero]
      have hres : legResidue units positions p held c leg = 0 := by
        simp [legResidue, hnone, wholeShare, hzero]
      simp only [hnone, ih, hres, wholeShare, hzero, mul_zero, zero_div, zero_add]
    · have hw := lt_of_le_of_ne (whole_nonneg hunits leg) (Ne.symm hzero)
      obtain ⟨holding, hsome⟩ : ∃ holding, p.delivered leg = some holding := by
        rw [Planning.delivered, if_neg hzero]
        exact ⟨_, rfl⟩
      have hshift : legShift units positions c holding = p.sign *
          (legResidue units positions p held c leg +
            if c = p.source ∧ held.paysNotional = true then wholeShare p leg else 0) := by
        rw [legShift, legResidue, hsome, Option.bind_some, sub_add_cancel]
        rw [Planning.delivered, if_neg hzero, Option.some.injEq] at hsome
        subst hsome
        simp only [signed_multiply hsign hw]
        split_ifs <;> simp
      simp only [hsome, List.map_cons, List.sum_cons, ih, hshift]
      split_ifs <;> ring

/-- **An exchange in the holding's own currency moves the gap by what its parts
    book beyond their shares of the basis.** -/
theorem exchangeShift_own {units : CurrencyUnits} {held : Position}
    (positions : Dict String Position) (h : exchangeBooking ctx units held r = .ok booking)
    (hown : InOwnCurrency ctx r.exchange held.currency) (c : String) :
    ∃ taken, takenPart ctx units held r = .ok taken ∧
      let p := planning ctx units r.exchange taken.exchanged r.timestamp r.rates
      exchangeShift units positions booking held c = p.sign *
        splitResidue units positions p r.exchange held (taken.kept.getD (0, 0)) c := by
  obtain ⟨taken, plan, parts, htaken, hplan, -, rfl⟩ := exchangeBooking_ok h
  refine ⟨taken, htaken, ?_⟩
  have hcur := takenPart_currency htaken
  rw [← hcur] at hown
  obtain ⟨honly, hpaid, hgain, hreceived, hretained⟩ := exchangePlan_own hplan hown
  intro p
  have hsource : p.source = held.currency := hcur
  have hsign : p.sign = 1 ∨ p.sign = -1 := by
    simp only [p, planning]
    split_ifs <;> simp
  have hunits : 0 ≤ p.units := abs_nonneg _
  have hcons : (plan.consideration.sum fun currency amount =>
      if c = currency then moneyOf units amount currency else 0) =
      if c = p.source then moneyOf units (p.consideration r.exchange) p.source else 0 := by
    rw [plan.consideration.sum_of_only _ honly, Dict.sumAt]
    change _ = if c = taken.exchanged.currency then moneyOf units (p.consideration r.exchange)
      taken.exchanged.currency else 0
    rw [← hpaid]
    cases plan.consideration.get? taken.exchanged.currency <;> simp [moneyOf_zero]
  -- the declared shares sum to one
  have hshares : (r.exchange.legs.map fun leg => p.basis * leg.basisShare).sum =
      p.basis * (1 - r.exchange.cashBasisShare - r.exchange.retainedBasisShare.getD 0) := by
    rw [List.sum_map_mul_left, HoldingExchange.cashBasisShare, cashShareOf]
    ring
  have hretained' : plan.retainedBasis = r.exchange.retainedBasisShare.map (multiply p.basis ·) :=
    hretained
  rw [exchangeShift, hcons, hreceived, legShift_sum units positions hsign hunits held c,
    splitResidue, cashResidue, hshares, hgain, holdingShift, keptResidue, hretained', ← hsource]
  by_cases hc : c = p.source
  · cases held.paysNotional with
    | true =>
      simp only [hc, if_true, and_self]
      cases r.exchange.retainedBasisShare with
      | none =>
        simp only [Option.map_none, Option.getD_none]
        rcases hsign with hs | hs <;> simp only [hs] <;> ring
      | some share =>
        simp only [Option.map_some, Option.getD_some]
        rcases hsign with hs | hs <;> simp only [hs] <;> ring
    | false =>
      simp only [hc, if_true, Bool.false_eq_true, and_false, if_false]
      rcases hsign with hs | hs <;> simp only [hs] <;> ring
  · simp only [hc, false_and, if_false]
    ring

end AlphaLab
