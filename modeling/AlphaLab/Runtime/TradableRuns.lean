/-
  Whether every position a run holds is booked by the economics its next fill is.

  * `positions_tradable`: the positions of every run whose exchanges do.
    `cash_equity_leg_untradable` is a run whose exchange does not.
-/
import AlphaLab.Runtime.HoldingMoves

namespace AlphaLab

open Fallible Relation

variable {c : RunConfig}

/-! ## What is tradable -/

/-- **Every position is booked by what the path books a fill of it by.** -/
def Tradable (c : RunConfig) (p : PortfolioState) : Prop :=
  ∀ asset q, p.positions.get? asset = some q → q.economics = c.economicsOf asset

theorem BookMoves.tradable {b b' : RunBook} (h : BookMoves c b b') (hb : Tradable c b.1) :
    Tradable c b'.1 := by
  induction h with
  | refl => exact hb
  | tail _ hmove ih =>
    intro asset q' hq'
    rcases (hmove.holding asset).terms hq' with ⟨q, hq, hterms⟩ | hbooked
    · exact hterms.2.2.2.trans (ih asset q hq)
    · exact hbooked.booked

variable {units : CurrencyUnits}

theorem money_error {amount : Decimal} {currency assetId : String} :
    money units amount currency ≠ .error (.otherEconomics assetId) := by
  intro h
  obtain ⟨-, he⟩ := orRefuse_error.mp h
  cases he

variable {pos : Position} {f : Fill} {assetId : String}

theorem tradeValue_error : tradeValue units pos f ≠ .error (.otherEconomics assetId) := by
  intro h
  unfold tradeValue at h
  split_ifs at h
  · cases (orRefuse_error.mp h).2
  · exact money_error h
  · cases h

theorem fillCash_error {cash : CashLedger} {impact : Decimal} :
    fillCash cash pos f impact ≠ .error (.otherEconomics assetId) := by
  intro h
  unfold fillCash at h
  split_ifs at h
  · cases h
  · cases h
  · rcases bind_error.mp h with h | ⟨_, -, h⟩
    · cases (require_error.mp h).2
    · cases h
  · cases h

/-- **A tradable book refuses no fill for its economics**, whatever is held. -/
theorem applyFill_otherEconomics {p : PortfolioState} (hp : Tradable c p)
    (hdeclared : f.declared = c.economicsOf f.assetId) (assetId : String) :
    applyFill p f ≠ .error (.otherEconomics assetId) := by
  intro h
  have hadd : ∀ (a : CurrencyAmounts) (amount : Decimal) (currency : String),
      a.add amount currency ≠ .error (.otherEconomics assetId) := by
    intro a amount currency h
    rcases bind_error.mp h with h | ⟨_, -, h⟩
    · cases (require_error.mp h).2
    · cases h
  rcases bind_error.mp h with h | ⟨_, -, h⟩
  · cases (require_error.mp h).2
  rcases bind_error.mp h with h | ⟨_, -, h⟩
  · cases (require_error.mp h).2
  rcases bind_error.mp h with h | ⟨_, -, h⟩
  · cases (require_error.mp h).2
  rcases bind_error.mp h with h | ⟨commission, -, h⟩
  · exact money_error h
  rcases bind_error.mp h with h | ⟨pos, hpos, h⟩
  · unfold fillPosition at h
    split at h
    · cases h
    · cases (orRefuse_error.mp h).2
  rcases bind_error.mp h with h | ⟨_, -, h⟩
  · cases (require_error.mp h).2
  rcases bind_error.mp h with h | ⟨_, -, h⟩
  · -- the position held is tradable, and a flat one is opened by the fill's own
    refine (require_error.mp h).1 ?_
    unfold fillPosition at hpos
    split at hpos
    · rename_i held hheld
      obtain rfl := pure_ok.mp hpos
      exact (hp _ _ hheld).trans hdeclared.symm
    · obtain ⟨-, -, heconomics, -⟩ := flatPosition_terms (orRefuse_ok.mp hpos)
      exact heconomics
  rcases bind_error.mp h with h | ⟨value, -, h⟩
  · exact tradeValue_error h
  rcases bind_error.mp h with h | ⟨cash, -, h⟩
  · exact fillCash_error h
  rcases bind_error.mp h with h | ⟨realized, -, h⟩
  · exact hadd _ _ _ h
  rcases bind_error.mp h with h | ⟨commissions, -, h⟩
  · exact hadd _ _ _ h
  cases h

/-- An exchange opens no holding in an instrument whose record declares exactly a fully
    paid unit of one: every leg that does is held already, or has no whole unit. -/
def OpensAsBooked (c : RunConfig) (p : PortfolioState) (r : ExchangeRequest) : Prop :=
  ∀ held, p.positions.get? r.exchange.assetId = some held → held.quantity ≠ 0 →
    ∀ leg ∈ r.exchange.legs, (c.declared leg.assetId).bind (·.economics) = some cashEquity →
      (∃ q, p.positions.get? leg.assetId = some q ∧ q.quantity ≠ 0) ∨
        c.wholePart cashEquity (multiply |r.unitsOf held| leg.ratio) = 0

variable {p : Planning}

theorem PlansOf.whole_cashEquity (h : PlansOf c p) {leg : ExchangeLeg}
    (hleg : (c.declared leg.assetId).bind (·.economics) = some cashEquity) :
    p.whole leg = c.wholePart cashEquity (multiply p.units leg.ratio) := by
  obtain ⟨record, hrecord, heconomics⟩ := Option.bind_eq_some_iff.mp hleg
  have hwhole : p.wholeOf (p.ctx.declared leg.assetId) (p.received leg) =
      .ok (wholePart p.ctx cashEquity (p.received leg)) := by
    rw [h.declared, hrecord]
    simp only [Option.map_some, Planning.wholeOf, economicsFor, heconomics]
    rfl
  rw [Planning.whole, hwhole]
  simp only [Planning.received, wholePart, RunConfig.wholePart, h.wholes, RunConfig.exchangeContext]
  rfl

/-- What an exchange of a holding opens is booked as a fill is, iff it opens no fully paid
    unit declared as one. -/
theorem ExchangeMoves.tradable_iff {x : HoldingExchange} {before after : PortfolioState}
    (h : ExchangeMoves x p before after) (hp : PlansOf c p) (hbefore : Tradable c before) :
    Tradable c after ↔ ∀ leg ∈ x.legs,
      (c.declared leg.assetId).bind (·.economics) = some cashEquity →
        (∃ q, before.positions.get? leg.assetId = some q ∧ q.quantity ≠ 0) ∨ p.whole leg = 0 := by
  constructor
  · intro hafter leg hleg hcash
    by_cases hwhole : p.whole leg = 0
    · exact Or.inr hwhole
    obtain ⟨e, q, hopens, hq, ⟨held, hheld, hne, -⟩ | ⟨-, -, -, heconomics, -⟩⟩ :=
      h.received leg hleg hwhole
    · exact Or.inl ⟨held, hheld, hne⟩
    · -- opened by what its record declares, and a fill of it is booked as nothing
      exfalso
      have hbooked := hafter _ _ hq
      rw [heconomics, hopens.economics, hp.economics_eq, RunConfig.economicsOf, hcash] at hbooked
      simp [Option.filter] at hbooked
  · intro hopens asset q hq
    by_cases hasset : asset = x.assetId
    · subst hasset
      obtain ⟨held, hheld, hresized⟩ := h.holding q hq
      exact hresized.terms.2.2.2.trans (hbefore _ _ hheld)
    by_cases hleg : ∃ leg ∈ x.legs, p.whole leg ≠ 0 ∧ leg.assetId = asset
    · obtain ⟨leg, hleg, hwhole, rfl⟩ := hleg
      obtain ⟨e, q', hopened, hq', hjoins⟩ := h.received leg hleg hwhole
      obtain rfl := Option.some.inj (hq'.symm.trans hq)
      rcases hjoins with ⟨held, hheld, -, hresized⟩ | ⟨hflat, -, -, heconomics, -⟩
      · exact hresized.terms.2.2.2.trans (hbefore _ _ hheld)
      · have hdeclares : (c.declared leg.assetId).bind (·.economics) ≠ some cashEquity := by
          intro hcash
          rcases hopens leg hleg hcash with ⟨held, hheld, hne⟩ | hzero
          · exact hne (hflat held hheld)
          · exact hwhole hzero
        rw [heconomics, hopened.economics, hp.economics_eq, RunConfig.economicsOf]
        cases heq : (c.declared leg.assetId).bind (·.economics) with
        | none => rfl
        | some e' =>
          have hne : e' ≠ cashEquity := by
            intro he
            exact hdeclares (he ▸ heq)
          simp [Option.filter, hne]
    · rw [h.others asset hasset] at hq
      · exact hbefore asset q hq
      · intro leg hleg' hwhole he
        exact hleg ⟨leg, hleg', hwhole, he⟩

/-- **An accepted exchange leaves a tradable book tradable iff it opens no fully paid unit
    declared as one.** -/
theorem exchange_tradable_iff {s t : PipelineState} {r : ExchangeRequest}
    (h : s.applyExchange c.pipeline (c.exchangeContext s.marketPrices) r = .ok t)
    (hs : Tradable c s.portfolio) : Tradable c t.portfolio ↔ OpensAsBooked c s.portfolio r := by
  obtain ⟨-, ⟨hflat, hsame⟩ | ⟨held, p, hheld, hne, hp, hunits, -, hmoves⟩⟩ := exchange_moves h
  · rw [hsame]
    refine iff_of_true hs ?_
    intro held hheld hne
    exact absurd (hflat held hheld) hne
  · have hwhole : ∀ leg ∈ r.exchange.legs,
        (c.declared leg.assetId).bind (·.economics) = some cashEquity →
          p.whole leg = c.wholePart cashEquity (multiply |r.unitsOf held| leg.ratio) := by
      intro leg _ hcash
      rw [hp.whole_cashEquity hcash, hunits]
    rw [hmoves.tradable_iff hp hs]
    constructor
    · intro hopens held' hheld' _ leg hleg hcash
      obtain rfl := Option.some.inj (hheld.symm.trans hheld')
      rw [← hwhole leg hleg hcash]
      exact hopens leg hleg hcash
    · intro hopens leg hleg hcash
      rw [hwhole leg hleg hcash]
      exact hopens held hheld hne leg hleg hcash

/-- The run's exchanges open nothing but as a fill of it would. -/
def OpensTradable (c : RunConfig) (s : RoutingState) (call : RunCall) : Prop :=
  ∀ r, call = .exchange r → OpensAsBooked c s.pipeline.portfolio r

/-- **A call keeps a book tradable**, an exchange iff it opens as a fill would. -/
theorem runStep_tradable {s t : RoutingState} {call : RunCall} (h : runStep c s call = .ok t)
    (hkeyed : Keyed s.pipeline.portfolio) (hs : Tradable c s.pipeline.portfolio) :
    Tradable c t.pipeline.portfolio ↔ OpensTradable c s call := by
  by_cases hcall : ∃ r, call = .exchange r
  · obtain ⟨r, rfl⟩ := hcall
    rw [exchange_tradable_iff (runStep_exchange h) hs]
    constructor
    · intro hopens r' hr'
      obtain rfl := RunCall.exchange.inj hr'
      exact hopens
    · intro hopens
      exact hopens r rfl
  · refine iff_of_true ?_ fun r hr => absurd ⟨r, hr⟩ hcall
    exact (runStep_moves hkeyed h fun r hr => hcall ⟨r, hr⟩).tradable hs

/-- **Every position of a run is tradable**, while its exchanges open nothing but as a
    fill of it would; no fill is then refused for its economics.  The first exchange
    that opens otherwise leaves a position that is not. -/
theorem positions_tradable (c : RunConfig) (budget : CapitalBudget) (account : Account)
    (s : RoutingState) (h : Reached c (OpensTradable c) budget account s) :
    (∀ asset q, s.pipeline.portfolio.positions.get? asset = some q →
      q.economics = c.economicsOf asset) ∧
    (∀ f : Fill, f.declared = c.economicsOf f.assetId → ∀ assetId,
      applyFill s.pipeline.portfolio f ≠ .error (.otherEconomics assetId)) ∧
    ∀ call t, runStep c s call = .ok t →
      (Tradable c t.pipeline.portfolio ↔ OpensTradable c s call) := by
  have hinv : Keyed s.pipeline.portfolio ∧ Tradable c s.pipeline.portfolio := by
    refine Runs.invariant (fun s : RoutingState => Keyed s.pipeline.portfolio ∧
      Tradable c s.pipeline.portfolio) h ⟨?_, ?_⟩ ?_
    · intro asset q hq
      simp [RoutingState.initial, PortfolioState.opened] at hq
    · intro asset q hq
      simp [RoutingState.initial, PortfolioState.opened] at hq
    · intro s call t hs hopens hstep
      exact ⟨runStep_keyed hstep hs.1, (runStep_tradable hstep hs.1 hs.2).mpr hopens⟩
  refine ⟨hinv.2, ?_, ?_⟩
  · intro f hf
    exact applyFill_otherEconomics hinv.2 hf
  · intro call t hstep
    exact runStep_tradable hstep hinv.1 hinv.2

/-! ## A fully paid unit declared as one -/

def plainShare : ContractRecord where
  assetId := "OLD"
  symbol := "OLD"
  assetType := .equity
  currency := "USD"

def declaredShare : ContractRecord where
  assetId := "NEW"
  symbol := "NEW"
  assetType := .equity
  currency := "USD"
  economics := some cashEquity

def sharesRun : RunConfig where
  currency := "USD"
  instruments := some (registryOf [plainShare, declaredShare])

def exchangedShares : List RunCall :=
  [.cash (.deposit 1000 "USD" 0)] ++ tradeCalls "A" "OLD" 10 10 1 ++
    [.exchange { exchange := renamed, timestamp := 3 }]

def oneSold : Fill where
  assetId := "NEW"
  quantity := -1
  price := 10
  commission := 0
  timestamp := 4
  currency := "USD"
  economics := sharesRun.economicsOf "NEW"

/-- The shares bought and sold again are tradable throughout. -/
theorem positions_tradable_bought : ∃ s,
    runOf sharesRun ([.cash (.deposit 1000 "USD" 0)] ++ tradeCalls "A" "OLD" 10 10 1) = .ok s ∧
    s.pipeline.portfolio.positions.keys = ["OLD"] ∧ Tradable sharesRun s.pipeline.portfolio := by
  obtain ⟨s, hs, hheld⟩ := exists_ok_of
    (x := runOf sharesRun ([.cash (.deposit 1000 "USD" 0)] ++ tradeCalls "A" "OLD" 10 10 1))
    (fun s => s.pipeline.portfolio.positions.keys = ["OLD"]) (by decide +kernel)
  refine ⟨s, hs, hheld, (positions_tradable sharesRun _ _ s (Runs.of_foldlM hs ?_)).1⟩
  intro call hcall _ r hr
  subst hr
  simp [tradeCalls] at hcall

/-- **A holding exchanged into a share that declares what a share is cannot be sold**: the
    position is booked by what is declared, and a fill of it by nothing. -/
theorem cash_equity_leg_untradable : ∃ s, runOf sharesRun exchangedShares = .ok s ∧
    oneSold.declared = sharesRun.economicsOf oneSold.assetId ∧
    (∃ q, s.pipeline.portfolio.positions.get? "NEW" = some q ∧ q.quantity = 10 ∧
      q.economics ≠ sharesRun.economicsOf "NEW") ∧
    applyFill s.pipeline.portfolio oneSold = .error (.otherEconomics "NEW") := by
  obtain ⟨s, hs, hdeclared, hq, hrefused⟩ := exists_ok_of (x := runOf sharesRun exchangedShares)
    (fun s => oneSold.declared = sharesRun.economicsOf oneSold.assetId ∧
      (s.pipeline.portfolio.positions.get? "NEW").any (fun q => decide (q.quantity = 10 ∧
        q.economics ≠ sharesRun.economicsOf "NEW")) = true ∧
      refusal (applyFill s.pipeline.portfolio oneSold) = some (.otherEconomics "NEW"))
    (by decide +kernel)
  exact ⟨s, hs, hdeclared, exists_some_of _ hq, refusal_eq_some.mp hrefused⟩

end AlphaLab
