/-
  What a run's calls do to its book: the portfolio and the prices observed.

  * `BookMove` is the least a call does of it: cash, a fill by the economics the
    run declares, a mark, an observed price, a split, a write-off, a contract
    closed at its price;
  * `call_moves`: every call but an exchange is such moves one after another, and
    `orderStep_moves` says so of the calls of orders.  Invariants of the book are
    proved of one move.
-/
import AlphaLab.Runtime.RunCalls

namespace AlphaLab

open Fallible Relation

abbrev RunBook := PortfolioState × Dict String Decimal

def PipelineState.book (s : PipelineState) : RunBook := (s.portfolio, s.marketPrices)

inductive BookMove (c : RunConfig) : RunBook → RunBook → Prop where
  | beside {p p' : PortfolioState} {m m' : Dict String Decimal}
      (positions : p'.positions = p.positions) (marks : p'.pendingMarks = p.pendingMarks)
      (prices : ∀ asset, m'.get? asset = m.get? asset) : BookMove c (p, m) (p', m')
  | fill {p p' : PortfolioState} {m : Dict String Decimal} (f : Fill)
      (declared : f.declared = c.economicsOf f.assetId) (filled : applyFill p f = .ok p') :
      BookMove c (p, m) (p', m)
  | mark {p p' : PortfolioState} {m : Dict String Decimal} (timestamp : Instant)
      (changed : Option String) (marked : markChanged p m timestamp changed = .ok p') :
      BookMove c (p, m) (p', m)
  | observe {p p' : PortfolioState} {m : Dict String Decimal} (timestamp : Instant)
      (asset : String) (price : Decimal)
      (marked : markChanged p (m.set asset price) timestamp (some asset) = .ok p') :
      BookMove c (p, m) (p', m.set asset price)
  | split {p p' : PortfolioState} {m : Dict String Decimal} (split : Split) (timestamp : Instant)
      (restated : applySplit p split timestamp = .ok p' ∨
        p.positions.get? split.assetId = none ∧ p' = p) :
      BookMove c (p, m) (p', (m.get? split.assetId).elim m
        fun price => m.set split.assetId (divide price split.ratio))
  | writeOff {p p' : PortfolioState} {m : Dict String Decimal} (a : DeliveryAmendment)
      (parts : List (String × Decimal)) (amended : amendDelivery p a = .ok (p', parts)) :
      BookMove c (p, m) (p', m)
  | priced {p : PortfolioState} {m : Dict String Decimal} (asset : String) (price : Decimal)
      (flat : ∀ q, p.positions.get? asset = some q → q.quantity = 0) :
      BookMove c (p, m) (p, m.set asset price)
  | closed {p p' : PortfolioState} {m : Dict String Decimal} (asset : String) (price : Decimal)
      (f : Fill) (declared : f.declared = c.economicsOf f.assetId)
      (filled : applyFill p f = .ok p') (contract : f.assetId = asset)
      (gone : p'.positions.get? asset = none) : BookMove c (p, m) (p', m.set asset price)

abbrev BookMoves (c : RunConfig) : RunBook → RunBook → Prop := ReflTransGen (BookMove c)

variable {c : RunConfig} {s t : PipelineState}

theorem BookMoves.of_book (h : t.book = s.book) : BookMoves c s.book t.book := h ▸ .refl

theorem BookMoves.of_beside (hpositions : t.portfolio.positions = s.portfolio.positions)
    (hmarks : t.portfolio.pendingMarks = s.portfolio.pendingMarks)
    (hprices : ∀ asset, t.marketPrices.get? asset = s.marketPrices.get? asset) :
    BookMoves c s.book t.book :=
  .single (.beside hpositions hmarks hprices)

/-! ## The economics a fill is booked by -/

variable {f : Fill}

theorem Fill.declared_of {economics : Option InstrumentEconomics}
    (h : f.economics.filter (· ≠ cashEquity) = economics) : f.declared = economics := by
  rw [← h, Fill.declared]
  cases f.economics with
  | none => rfl
  | some e => by_cases he : e = cashEquity <;> simp [Option.filter, he]

theorem economicsOf_filter (c : RunConfig) (assetId : String) :
    (c.economicsOf assetId).filter (· ≠ cashEquity) = c.economicsOf assetId := by
  rw [RunConfig.economicsOf, Option.filter_filter]
  simp

variable {assetId : String} {record : ContractRecord}

theorem declared_assetId (h : c.declared assetId = some record) : record.assetId = assetId := by
  obtain ⟨registry, -, hget⟩ := Option.bind_eq_some_iff.mp h
  exact Register.key_of_get? hget

theorem find_ok :
    c.find assetId = .ok record ↔ c.declared assetId = some record := orRefuse_ok

theorem inExchange_ok {α : Type} {x : Except ExchangeRefusal α} {a : α} :
    inExchange x = .ok a ↔ x = .ok a := mapError_ok

theorem inBook_ok {α : Type} {x : Except PortfolioRefusal α} {a : α} :
    inBook x = .ok a ↔ x = .ok a := mapError_ok

theorem inPipeline_ok {α : Type} {x : Except PipelineRefusal α} {a : α} :
    inPipeline x = .ok a ↔ x = .ok a := mapError_ok

variable {economics : InstrumentEconomics}

/-- **A contract's own economics are those the path books a fill of it by.** -/
theorem economicsFor_declared (h : c.declared assetId = some record)
    (he : economicsFor record.toInstrumentRecord = .ok economics) :
    (some economics).filter (· ≠ cashEquity) = c.economicsOf assetId := by
  rw [RunConfig.economicsOf, h, Option.bind_some]
  unfold economicsFor at he
  cases hrecord : record.economics with
  | some declared =>
    rw [hrecord] at he
    rw [pure_ok.mp he]
  | none =>
    have hcash : economics = cashEquity := by
      rw [hrecord] at he
      cases htype : record.assetType <;> rw [htype] at he
      case equity | crypto | forex | cash | index => exact (pure_ok.mp he).symm
      case future | option | bond => cases he
    rw [hcash]
    simp

structure Declares (c : RunConfig) (record : ContractRecord) (economics : InstrumentEconomics) :
    Prop where
  declared : c.declared record.assetId = some record
  booked : economicsFor record.toInstrumentRecord = .ok economics

theorem Declares.of_find (h : c.find assetId = .ok record)
    (he : inExchange (economicsFor record.toInstrumentRecord) = .ok economics) :
    Declares c record economics ∧ record.assetId = assetId := by
  have hdeclared := find_ok.mp h
  have hasset := declared_assetId hdeclared
  exact ⟨⟨hasset ▸ hdeclared, inExchange_ok.mp he⟩, hasset⟩

variable {currency : String} {timestamp : Instant} {financed : Bool}

theorem lifecycleFill_ok {quantity price : Decimal}
    (h : s.lifecycleFill c assetId quantity price timestamp currency economics financed = .ok t) :
    ∃ f portfolio, f.assetId = assetId ∧ f.quantity = quantity ∧ f.economics = some economics ∧
      applyFill s.portfolio f = .ok portfolio ∧ t = s.withPortfolio portfolio := by
  obtain ⟨settlesAt, -, h⟩ := bind_ok.mp h
  obtain ⟨portfolio, hfill, h⟩ := bind_ok.mp h
  exact ⟨_, portfolio, rfl, rfl, rfl, inBook_ok.mp hfill, (pure_ok.mp h).symm⟩

theorem lifecycleFill_moves {quantity price : Decimal} (hd : Declares c record economics)
    (h : s.lifecycleFill c record.assetId quantity price timestamp currency economics financed = .ok
      t) : BookMoves c s.book t.book := by
  obtain ⟨f, portfolio, hasset, -, heconomics, hfill, rfl⟩ := lifecycleFill_ok h
  refine .single (.fill f (Fill.declared_of ?_) hfill)
  rw [heconomics, hasset]
  exact economicsFor_declared hd.declared hd.booked

variable {report : ExecutionReport}

theorem reportToPortfolio_moves {side : Side}
    (h : s.reportToPortfolio c.pipeline report side = .ok t) : BookMoves c s.book t.book := by
  obtain ⟨_, -, h⟩ := bind_ok.mp h
  obtain ⟨settlesAt, -, h⟩ := bind_ok.mp h
  obtain ⟨portfolio, hfill, h⟩ := bind_ok.mp h
  obtain rfl := pure_ok.mp h
  refine .single (.fill _ (Fill.declared_of ?_) (mapError_ok.mp hfill))
  exact economicsOf_filter c report.assetId

/-! ## Deliveries -/

variable {rates : FxRates} {parts : List (String × Decimal)}

theorem receiveParts_book {value : Decimal}
    (h : s.receiveParts c rates assetId parts value currency timestamp = .ok t) :
    t.book = s.book := by
  obtain ⟨_, -, h⟩ := bind_ok.mp h
  obtain rfl := pure_ok.mp h
  rfl

theorem remark_moves (h : s.remark assetId timestamp = .ok t) : BookMoves c s.book t.book := by
  unfold PipelineState.remark at h
  split at h
  · exact .of_book (pure_ok.mp h ▸ rfl)
  · obtain ⟨portfolio, hmark, h⟩ := bind_ok.mp h
    obtain rfl := pure_ok.mp h
    exact .single (.mark timestamp (some assetId) (inBook_ok.mp hmark))

theorem receive_moves {units unitPrice : Decimal} (hd : Declares c record economics)
    (h : s.receive c rates record economics units unitPrice parts timestamp financed = .ok t) :
    BookMoves c s.book t.book := by
  obtain ⟨filled, hfilled, h⟩ := bind_ok.mp h
  obtain ⟨received, hreceived, h⟩ := bind_ok.mp h
  have hfill := lifecycleFill_moves hd hfilled
  rw [← receiveParts_book hreceived] at hfill
  exact hfill.trans (remark_moves h)

variable {d : Deliverable}

variable {contract : ContractRecord}

theorem requireDeliverable_declares {units price multiplier : Decimal}
    {terms : PipelineState.DeliveryTerms}
    (h : s.requireDeliverable c contract d units price multiplier = .ok terms) :
    Declares c terms.underlying terms.economics ∧ terms.underlying.assetId = d.assetId := by
  obtain ⟨underlying, hfind, h⟩ := bind_ok.mp h
  obtain ⟨_, -, h⟩ := bind_ok.mp h
  obtain ⟨economics, heconomics, h⟩ := bind_ok.mp h
  obtain ⟨_, -, h⟩ := bind_ok.mp h
  obtain ⟨_, -, h⟩ := bind_ok.mp h
  obtain ⟨_, -, h⟩ := bind_ok.mp h
  obtain ⟨_, -, h⟩ := bind_ok.mp h
  obtain rfl := pure_ok.mp h
  exact Declares.of_find hfind heconomics

theorem deliver_moves {units price multiplier : Decimal}
    (h : s.deliver c rates contract d parts units price multiplier timestamp = .ok t) :
    BookMoves c s.book t.book := by
  obtain ⟨terms, hterms, h⟩ := bind_ok.mp h
  exact receive_moves (requireDeliverable_declares hterms).1 h

theorem convertFor_moves {conversion : Option (Decimal × String × String)}
    (h : s.convertFor conversion rates timestamp financed = .ok t) : BookMoves c s.book t.book := by
  unfold PipelineState.convertFor at h
  split at h
  · exact .of_book (pure_ok.mp h ▸ rfl)
  · obtain ⟨⟨portfolio, conversion⟩, hconvert, h⟩ := bind_ok.mp h
    obtain rfl := pure_ok.mp h
    obtain ⟨_, _, -, -, -, rfl⟩ := convertCash_ok (inBook_ok.mp hconvert)
    exact .of_beside rfl rfl fun _ => rfl

theorem findComponent_ok {terms : OptionTerms} {contracts : Decimal} {f : FoundComponent}
    (h : s.findComponent c terms currency contracts d = .ok f) :
    Declares c f.record f.economics ∧ f.record.assetId = d.assetId ∧
      f.whole = c.wholePart f.economics (multiply d.units contracts) := by
  obtain ⟨underlying, hfind, h⟩ := bind_ok.mp h
  obtain ⟨_, -, h⟩ := bind_ok.mp h
  obtain ⟨economics, heconomics, h⟩ := bind_ok.mp h
  obtain ⟨hd, hasset⟩ := Declares.of_find hfind heconomics
  simp only at h
  split_ifs at h
  · exact pure_ok.mp h ▸ ⟨hd, hasset, rfl⟩
  · obtain ⟨_, -, h⟩ := bind_ok.mp h
    exact pure_ok.mp h ▸ ⟨hd, hasset, rfl⟩

def DeclaredOption.sign (o : DeclaredOption) (closing : Decimal) : Decimal :=
  if 0 < closing then o.terms.direction else -o.terms.direction

variable {o : DeclaredOption} {closing : Decimal} {plan : PackagePlan}

/-- **What a package is planned from**: the components found of its deliverables, those with
    whole units planned at their costs. -/
theorem packagePlan_ok (h : s.packagePlan c o closing timestamp rates = .ok plan) :
    ∃ currency found whole cost costs,
      o.terms.deliverables.mapM (s.findComponent c o.terms currency |closing|) = .ok found ∧
      whole = found.filter (fun f => decide (0 < f.whole)) ∧ whole ≠ [] ∧
      s.componentCosts cost o.record.assetId whole = .ok costs ∧
      (whole.zip costs).mapM (s.planComponent c (o.sign closing)) = .ok plan.components := by
  obtain ⟨first, -, h⟩ := bind_ok.mp h
  obtain ⟨found, hfound, h⟩ := bind_ok.mp h
  obtain ⟨net, -, h⟩ := bind_ok.mp h
  obtain ⟨_, -, h⟩ := bind_ok.mp h
  obtain ⟨inCurrency, -, h⟩ := bind_ok.mp h
  obtain ⟨_, hsome, h⟩ := bind_ok.mp h
  obtain ⟨_, -, h⟩ := bind_ok.mp h
  obtain ⟨costs, hcosts, h⟩ := bind_ok.mp h
  obtain ⟨components, hcomponents, h⟩ := bind_ok.mp h
  obtain ⟨_, -, h⟩ := bind_ok.mp h
  obtain rfl := pure_ok.mp h
  exact ⟨_, found, _, _, costs, hfound, rfl, require_ok.mp hsome, hcosts, hcomponents⟩

theorem planComponent_ok {sign : Decimal} {e : FoundComponent × Decimal} {k : Component}
    (h : s.planComponent c sign e = .ok k) : k.record = e.1.record ∧
      k.economics = e.1.economics ∧ k.units = multiply sign e.1.whole := by
  obtain ⟨_, -, h⟩ := bind_ok.mp h
  obtain ⟨_, -, h⟩ := bind_ok.mp h
  obtain rfl := pure_ok.mp h
  exact ⟨rfl, rfl, rfl⟩

theorem packagePlan_declares (h : s.packagePlan c o closing timestamp rates = .ok plan) :
    ∀ k ∈ plan.components, Declares c k.record k.economics := by
  obtain ⟨_, found, _, _, costs, hfound, rfl, -, -, hcomponents⟩ := packagePlan_ok h
  intro k hk
  obtain ⟨⟨f, cost⟩, hf, hk⟩ := mem_mapM hcomponents hk
  obtain ⟨d, -, hd⟩ := mem_mapM hfound (List.mem_of_mem_filter (List.of_mem_zip hf).1)
  obtain ⟨hrecord, heconomics, -⟩ := planComponent_ok hk
  rw [hrecord, heconomics]
  exact (findComponent_ok hd).1

theorem bookPackage_moves (hplan : ∀ k ∈ plan.components, Declares c k.record k.economics)
    (h : s.bookPackage c rates plan parts timestamp = .ok t) : BookMoves c s.book t.book := by
  obtain ⟨funded, hfunded, h⟩ := bind_ok.mp h
  obtain ⟨moved, hmoved, h⟩ := bind_ok.mp h
  have hcomponents : BookMoves c funded.book moved.book := by
    refine foldlM_invariant (fun u => BookMoves c funded.book u.book) hmoved .refl ?_
    intro k hk u v hstep hu
    obtain ⟨own, -, hstep⟩ := bind_ok.mp hstep
    exact hu.trans (receive_moves (hplan k hk) hstep)
  exact ((convertFor_moves hfunded).trans hcomponents).trans (convertFor_moves h)

/-! ## Options -/

theorem declaredOption_declares (h : c.declaredOption assetId timestamp = .ok o) :
    Declares c o.record o.economics ∧ o.record.assetId = assetId := by
  obtain ⟨record, hfind, h⟩ := bind_ok.mp h
  split at h
  · obtain ⟨economics, heconomics, h⟩ := bind_ok.mp h
    obtain rfl := pure_ok.mp h
    exact Declares.of_find hfind heconomics
  · cases h

variable {underlyingValue : Option Decimal} {instructed : Bool}

theorem resolveOption_surrenders
    (h : s.resolveOption c o closing underlyingValue parts timestamp rates instructed = .ok t) :
    ∃ price u, s.surrender c o closing price parts timestamp = .ok u ∧
      BookMoves c u.book t.book := by
  unfold PipelineState.resolveOption at h
  cases hsettlement : o.terms.settlement with
  | cash =>
    rw [hsettlement] at h
    obtain ⟨paid, -, h⟩ := bind_ok.mp h
    exact ⟨paid, t, h, .refl⟩
  | physical =>
    rw [hsettlement] at h
    obtain ⟨_, -, h⟩ := bind_ok.mp h
    split_ifs at h
    · obtain ⟨terms, -, h⟩ := bind_ok.mp h
      obtain ⟨surrendered, hsurrendered, h⟩ := bind_ok.mp h
      obtain ⟨delivered, hdelivered, h⟩ := bind_ok.mp h
      obtain ⟨_, -, h⟩ := bind_ok.mp h
      obtain rfl := pure_ok.mp h
      exact ⟨0, surrendered, hsurrendered, deliver_moves hdelivered⟩
    · obtain ⟨plan, hplan, h⟩ := bind_ok.mp h
      obtain ⟨surrendered, hsurrendered, h⟩ := bind_ok.mp h
      obtain ⟨booked, hbooked, h⟩ := bind_ok.mp h
      obtain ⟨_, -, h⟩ := bind_ok.mp h
      obtain rfl := pure_ok.mp h
      exact ⟨0, surrendered, hsurrendered, bookPackage_moves (packagePlan_declares hplan) hbooked⟩

variable {price : Decimal}

theorem surrender_ok (h : s.surrender c o closing price parts timestamp = .ok t) :
    ∃ f portfolio, f.assetId = o.record.assetId ∧ f.quantity = -closing ∧
      f.economics = some o.economics ∧ applyFill s.portfolio f = .ok portfolio ∧
      t = (s.withAllocation (s.allocation.applyLifecycle o.record.assetId parts)).withPortfolio
        portfolio :=
  lifecycleFill_ok h

theorem surrender_moves (hd : Declares c o.record o.economics)
    (h : s.surrender c o closing price parts timestamp = .ok t) : BookMoves c s.book t.book := by
  obtain ⟨f, portfolio, hasset, -, heconomics, hfill, rfl⟩ := surrender_ok h
  refine .single (.fill f (Fill.declared_of ?_) hfill)
  rw [heconomics, hasset]
  exact economicsFor_declared hd.declared hd.booked

theorem resolveOption_moves (hd : Declares c o.record o.economics)
    (h : s.resolveOption c o closing underlyingValue parts timestamp rates instructed = .ok t) :
    BookMoves c s.book t.book := by
  obtain ⟨price, u, hsurrender, hrest⟩ := resolveOption_surrenders h
  exact (surrender_moves hd hsurrender).trans hrest

theorem exercisable_declares (h : s.exercisable c assetId timestamp = .ok o) :
    Declares c o.record o.economics := by
  obtain ⟨o', ho, h⟩ := bind_ok.mp h
  obtain ⟨_, -, h⟩ := bind_ok.mp h
  obtain ⟨_, -, h⟩ := bind_ok.mp h
  obtain rfl := pure_ok.mp h
  exact (declaredOption_declares ho).1

variable {x : Exercise}

theorem exercise_moves (h : s.exercise c x timestamp rates = .ok t) :
    BookMoves c s.book t.book := by
  obtain ⟨o, ho, h⟩ := bind_ok.mp h
  obtain ⟨_, -, h⟩ := bind_ok.mp h
  obtain ⟨parts, -, h⟩ := bind_ok.mp h
  exact resolveOption_moves (exercisable_declares ho) h

theorem assign_moves (h : s.assign c x timestamp rates = .ok t) : BookMoves c s.book t.book := by
  obtain ⟨o, ho, h⟩ := bind_ok.mp h
  obtain ⟨_, -, h⟩ := bind_ok.mp h
  obtain ⟨parts, -, h⟩ := bind_ok.mp h
  exact resolveOption_moves (exercisable_declares ho) h

theorem strategyExercise_moves {strategyId : String}
    (h : s.strategyExercise c strategyId x timestamp rates = .ok t) :
    BookMoves c s.book t.book := by
  obtain ⟨o, ho, h⟩ := bind_ok.mp h
  obtain ⟨_, -, h⟩ := bind_ok.mp h
  obtain ⟨value, -, h⟩ := bind_ok.mp h
  exact resolveOption_moves (exercisable_declares ho) h

/-! ## Ends of contracts -/

theorem cancelWorking_book (h : s.cancelWorking c.pipeline assetId timestamp = .ok t) :
    t.book = s.book := by
  obtain ⟨_, -, h⟩ := bind_ok.mp h
  refine foldlM_invariant (fun u : PipelineState => u.book = s.book) h rfl ?_
  intro orderId _ u v hended hu
  obtain ⟨-, -, hbeside, hportfolio, -⟩ := PipelineState.ended_spec hended
  rw [← hu, PipelineState.book, PipelineState.book, hportfolio, hbeside.marketPrices]

variable {position : Position}

theorem applyFill_gone {p p' : PortfolioState} (hheld : p.positions.get? f.assetId = some position)
    (hquantity : f.quantity = -position.quantity) (h : applyFill p f = .ok p') :
    p'.positions.get? f.assetId = none := by
  obtain ⟨hne, _, pos, _, _, _, _, newPos, _, -, hpos, -, -, happly, -, -, -, rfl⟩ := applyFill_ok h
  unfold fillPosition at hpos
  rw [hheld, pure_ok] at hpos
  subst hpos
  obtain ⟨b, r, o, hbooks, -⟩ := position.applyFill_books f.price f.timestamp hne
  have hnew : newPos.quantity = 0 := by
    rw [hbooks] at happly
    rw [← (Prod.mk.inj happly).1, Position.rebasedAt_quantity, hquantity]
    ring
  simp only [if_pos hnew]
  exact Dict.get?_delete_self _ _

variable {p : PortfolioState}

theorem flat_of_filter {asset : String}
    (h : (p.positions.get? asset).filter (·.quantity ≠ 0) = none) :
    ∀ q, p.positions.get? asset = some q → q.quantity = 0 := by
  intro q hq
  simpa using Option.filter_eq_none_iff.mp h q hq

theorem settleable_declares {x : ContractSettlement} {found : ContractRecord × InstrumentEconomics}
    (h : c.settleable x timestamp = .ok found) :
    Declares c found.1 found.2 ∧ found.1.assetId = x.assetId := by
  obtain ⟨record, hfind, h⟩ := bind_ok.mp h
  obtain ⟨_, -, h⟩ := bind_ok.mp h
  obtain ⟨_, -, h⟩ := bind_ok.mp h
  obtain ⟨economics, heconomics, h⟩ := bind_ok.mp h
  obtain ⟨_, -, h⟩ := bind_ok.mp h
  obtain ⟨_, -, h⟩ := bind_ok.mp h
  split at h
  · cases h
  · obtain rfl := pure_ok.mp h
    exact Declares.of_find hfind heconomics

theorem closeContract_moves {x : ContractSettlement} (hd : Declares c record economics)
    (hasset : record.assetId = x.assetId)
    (hheld : s.portfolio.positions.get? x.assetId = some position)
    (h : s.closeContract c record economics x position timestamp rates = .ok t) :
    BookMoves c s.book t.book := by
  -- the price is set and the position closed at once
  have hclosed : ∀ u, ((s.withAllocation (s.allocation.settleAsset x.assetId).1).withPrice
      x.assetId x.price).lifecycleFill c x.assetId (-position.quantity) x.price timestamp
      position.currency economics = .ok u → BookMoves c s.book u.book := by
    intro u hu
    obtain ⟨f, portfolio, hfasset, hquantity, heconomics, hfill, rfl⟩ := lifecycleFill_ok hu
    refine .single (.closed x.assetId x.price f (Fill.declared_of ?_) hfill hfasset ?_)
    · rw [heconomics, hfasset, ← hasset]
      exact economicsFor_declared hd.declared hd.booked
    · rw [← hfasset]
      exact applyFill_gone (hfasset.symm ▸ hheld) hquantity hfill
  unfold PipelineState.closeContract at h
  cases hdelivery : record.settledDelivery with
  | none =>
    rw [hdelivery] at h
    exact hclosed t h
  | some d =>
    rw [hdelivery] at h
    obtain ⟨_, -, h⟩ := bind_ok.mp h
    obtain ⟨closed, hfill, h⟩ := bind_ok.mp h
    exact (hclosed closed hfill).trans (deliver_moves h)

theorem settleContract_moves {x : ContractSettlement}
    (h : s.settleContract c x timestamp rates = .ok t) : BookMoves c s.book t.book := by
  obtain ⟨⟨record, economics⟩, hfound, h⟩ := bind_ok.mp h
  obtain ⟨current, hcancel, h⟩ := bind_ok.mp h
  have hbook := cancelWorking_book (inPipeline_ok.mp hcancel)
  obtain ⟨hd, hasset⟩ := settleable_declares hfound
  rw [← hbook]
  cases hheld : (current.portfolio.positions.get? x.assetId).filter (·.quantity ≠ 0) with
  | none =>
    rw [hheld] at h
    obtain rfl := pure_ok.mp h
    exact .single (.priced x.assetId x.price (flat_of_filter hheld))
  | some position =>
    rw [hheld] at h
    exact closeContract_moves hd hasset (Option.filter_eq_some_iff.mp hheld).1 h

/-- What an expiry settles against: the value stated, for a cash-settled contract on one
    deliverable. -/
def DeclaredOption.expiryValue (o : DeclaredOption) (x : OptionExpiry) : Option Decimal :=
  if o.terms.settlement = .cash ∧ o.terms.packaged = false then x.underlyingValue else none

/-- **An option expired**: its orders cancelled and its price set; what is held of it, if
    anything, is resolved whole or surrendered for nothing. -/
theorem expireOption_ok {x : OptionExpiry} (h : s.expireOption c x timestamp rates = .ok t) :
    ∃ o cancelled intrinsic current, c.declaredOption x.assetId timestamp = .ok o ∧
      s.cancelWorking c.pipeline x.assetId timestamp = .ok cancelled ∧
      s.intrinsicOf c o x.underlyingValue = .ok intrinsic ∧
      current = cancelled.withPrice x.assetId intrinsic ∧
      (current.held x.assetId = 0 ∧ t = current ∨ current.held x.assetId ≠ 0 ∧ ∃ parts,
        current.partsOf x.assetId (current.held x.assetId) = .ok parts ∧
        (o.terms.automaticExercise.any (·.exercises intrinsic) = true ∧
            current.resolveOption c o (current.held x.assetId) (o.expiryValue x) parts timestamp
              rates false = .ok t ∨
          o.terms.automaticExercise.any (·.exercises intrinsic) = false ∧
            current.surrender c o (current.held x.assetId) 0 parts timestamp = .ok t)) := by
  obtain ⟨o, ho, h⟩ := bind_ok.mp h
  obtain ⟨_, -, h⟩ := bind_ok.mp h
  obtain ⟨cancelled, hcancel, h⟩ := bind_ok.mp h
  obtain ⟨intrinsic, hintrinsic, h⟩ := bind_ok.mp h
  refine ⟨o, cancelled, intrinsic, _, ho, inPipeline_ok.mp hcancel, hintrinsic, rfl, ?_⟩
  by_cases hflat : (cancelled.withPrice x.assetId intrinsic).held x.assetId = 0
  · exact Or.inl ⟨hflat, (pure_ok.mp ((if_pos hflat).symm.trans h)).symm⟩
  · obtain ⟨parts, hparts, h⟩ := bind_ok.mp ((if_neg hflat).symm.trans h)
    refine Or.inr ⟨hflat, parts, hparts, ?_⟩
    by_cases hexercised : o.terms.automaticExercise.any (·.exercises intrinsic) = true
    · exact Or.inl ⟨hexercised, (if_pos hexercised).symm.trans h⟩
    · exact Or.inr ⟨Bool.eq_false_iff.mpr hexercised, (if_neg hexercised).symm.trans h⟩

theorem expireOption_moves {x : OptionExpiry} (h : s.expireOption c x timestamp rates = .ok t) :
    BookMoves c s.book t.book := by
  obtain ⟨o, cancelled, intrinsic, current, ho, hcancel, -, rfl, h⟩ := expireOption_ok h
  obtain ⟨hd, hasset⟩ := declaredOption_declares ho
  rw [← cancelWorking_book hcancel]
  rcases h with ⟨hflat, rfl⟩ | ⟨hheld, parts, -, h⟩
  · refine .single (.priced x.assetId intrinsic ?_)
    intro q hq
    simpa [PipelineState.held, PipelineState.withPrice, hq] using hflat
  obtain ⟨position, hposition⟩ : ∃ q, cancelled.portfolio.positions.get? x.assetId = some q := by
    refine Option.ne_none_iff_exists'.mp fun hnone => hheld ?_
    simp [PipelineState.held, PipelineState.withPrice, hnone]
  -- all that is held is surrendered first, exercised or not
  have hsurrendered : ∀ price u, (cancelled.withPrice x.assetId intrinsic).surrender c o
      ((cancelled.withPrice x.assetId intrinsic).held x.assetId) price parts timestamp = .ok u →
      BookMoves c cancelled.book u.book := by
    intro price u hu
    obtain ⟨f, portfolio, hfasset, hquantity, heconomics, hfill, rfl⟩ := surrender_ok hu
    rw [hasset] at hfasset
    refine .single (.closed x.assetId intrinsic f (Fill.declared_of ?_) hfill hfasset ?_)
    · rw [heconomics, hfasset, ← hasset]
      exact economicsFor_declared hd.declared hd.booked
    · rw [← hfasset]
      refine applyFill_gone (hfasset.symm ▸ hposition) ?_ hfill
      rw [hquantity]
      simp [PipelineState.held, PipelineState.withPrice, hposition]
  rcases h with ⟨-, h⟩ | ⟨-, h⟩
  · obtain ⟨price, u, hu, hrest⟩ := resolveOption_surrenders h
    exact (hsurrendered price u hu).trans hrest
  · exact hsurrendered 0 t h

/-! ## Calls -/

variable {split : Split}

/-- **A split** of a run: its orders cancelled, and every unit and the price restated. -/
theorem PipelineState.applySplit_ok {config : PipelineConfig}
    (h : s.applySplit config split timestamp = .ok t) : ∃ current portfolio,
    s.cancelWorking config split.assetId timestamp = .ok current ∧
    (AlphaLab.applySplit current.portfolio split timestamp = .ok portfolio ∨
      current.portfolio.positions.get? split.assetId = none ∧ portfolio = current.portfolio) ∧
    t = { current with
      portfolio := portfolio
      allocation := current.allocation.applySplit split.assetId split.ratio
      marketPrices := (current.marketPrices.get? split.assetId).elim current.marketPrices
        fun price => current.marketPrices.set split.assetId (divide price split.ratio) } := by
  obtain ⟨current, hcancel, h⟩ := bind_ok.mp h
  refine ⟨current, ?_⟩
  by_cases hheld : (current.portfolio.positions.get? split.assetId).isSome = true
  · obtain ⟨portfolio, hsplit, h⟩ := bind_ok.mp ((if_pos hheld).symm.trans h)
    exact ⟨portfolio, hcancel, Or.inl (mapError_ok.mp hsplit), (pure_ok.mp h).symm⟩
  · obtain ⟨portfolio, hsame, h⟩ := bind_ok.mp ((if_neg hheld).symm.trans h)
    exact ⟨portfolio, hcancel, Or.inr ⟨by simpa using hheld, (pure_ok.mp hsame).symm⟩,
      (pure_ok.mp h).symm⟩

theorem applySplit_moves (h : s.applySplit c.pipeline split timestamp = .ok t) :
    BookMoves c s.book t.book := by
  obtain ⟨current, portfolio, hcancel, hsplit, rfl⟩ := PipelineState.applySplit_ok h
  rw [← cancelWorking_book hcancel]
  exact .single (.split split timestamp hsplit)

theorem processPrice_moves {update : Option (String × Decimal)}
    (h : s.processPrice c update timestamp = .ok t) : BookMoves c s.book t.book := by
  obtain ⟨_, -, h⟩ := bind_ok.mp h
  obtain ⟨portfolio, hmark, h⟩ := bind_ok.mp h
  obtain rfl := pure_ok.mp h
  have hmark := mapError_ok.mp hmark
  cases update with
  | none => exact .single (.mark timestamp none hmark)
  | some u => exact .single (.observe timestamp u.1 u.2 hmark)

theorem moveCash_moves {call : PortfolioCall} (h : s.moveCash call = .ok t) :
    BookMoves c s.book t.book := by
  obtain ⟨_, hcall, h⟩ := bind_ok.mp h
  obtain ⟨portfolio, happly, h⟩ := bind_ok.mp h
  obtain rfl := pure_ok.mp h
  have happly := mapError_ok.mp happly
  have hbeside : portfolio.positions = s.portfolio.positions ∧
      portfolio.pendingMarks = s.portfolio.pendingMarks := by
    have hmoves := require_ok.mp hcall
    cases call <;> simp only [PortfolioCall.movesCash, Bool.false_eq_true] at hmoves <;>
      simp only [PortfolioCall.apply, inPortfolio_ok, map_fst_ok, pure_ok] at happly
    case deposit =>
      obtain ⟨_, -, rfl⟩ := applyDeposit_ok happly
      exact ⟨rfl, rfl⟩
    case convert =>
      obtain ⟨_, happly⟩ := happly
      obtain ⟨_, _, -, -, -, rfl⟩ := convertCash_ok happly
      exact ⟨rfl, rfl⟩
    case recordAccrual => exact happly ▸ ⟨rfl, rfl⟩
    case closeAccrual => exact happly ▸ ⟨rfl, rfl⟩
    case cashFlow =>
      obtain ⟨_, _, -, -, rfl⟩ := applyCashFlow_ok happly
      exact ⟨rfl, rfl⟩
    case amendPayment =>
      rcases amendPayment_ok happly with rfl | ⟨-, _, -, rfl⟩ <;> exact ⟨rfl, rfl⟩
  exact .of_beside hbeside.1 hbeside.2 fun _ => rfl

theorem amendDelivery_moves {a : DeliveryAmendment} (h : s.amendDelivery a = .ok t) :
    BookMoves c s.book t.book := by
  obtain ⟨⟨portfolio, lost⟩, hamend, h⟩ := bind_ok.mp h
  obtain rfl := pure_ok.mp h
  exact .single (.writeOff a lost (mapError_ok.mp hamend))

def Keyed (p : PortfolioState) : Prop :=
  ∀ asset q, p.positions.get? asset = some q → q.assetId = asset

theorem readBack_moves (hkeyed : Keyed s.portfolio) (h : s.readBack = .ok t) :
    BookMoves c s.book t.book := by
  obtain ⟨snapshot, hread, h⟩ := bind_ok.mp h
  obtain rfl := pure_ok.mp h
  rw [fromPrimitives_toJson] at hread
  split_ifs at hread
  obtain rfl := Except.ok.inj hread
  refine .of_beside (ofList_positions hkeyed) ?_ s.marketPrices.get?_sorted
  exact SortedSet.ofList_members _

variable {call : RunCall}

theorem call_moves (hkeyed : Keyed s.portfolio) (h : s.call c call = .ok t)
    (hcall : ∀ request, call ≠ .exchange request) : BookMoves c s.book t.book := by
  cases call with
  | order => cases h
  | market update timestamp => exact processPrice_moves h
  | cash call => exact moveCash_moves h
  | amendDelivery a => exact amendDelivery_moves (mapError_ok.mp h)
  | split split timestamp => exact applySplit_moves (mapError_ok.mp h)
  | exchange request => exact absurd rfl (hcall request)
  | settle x timestamp rates => exact settleContract_moves (mapError_ok.mp h)
  | exercise x timestamp rates => exact exercise_moves (mapError_ok.mp h)
  | assign x timestamp rates => exact assign_moves (mapError_ok.mp h)
  | ask strategyId x timestamp rates => exact strategyExercise_moves (mapError_ok.mp h)
  | expire x timestamp rates => exact expireOption_moves (mapError_ok.mp h)
  | restore => exact readBack_moves hkeyed (mapError_ok.mp h)

theorem ended_book {orderId : String} {ending : OrderEnding}
    (h : s.ended orderId ending timestamp = .ok t) : t.book = s.book := by
  obtain ⟨-, -, hbeside, hportfolio, -⟩ := PipelineState.ended_spec h
  rw [PipelineState.book, PipelineState.book, hportfolio, hbeside.marketPrices]

theorem releaseIfTerminal_book (s : PipelineState) (orderId : String) (timestamp : Instant) :
    (s.releaseIfTerminal orderId timestamp).book = s.book := by
  rcases PipelineState.releaseIfTerminal_cases s orderId timestamp with h | h
  · rw [h]
  · rw [h, PipelineState.book, PipelineState.book, PipelineState.retireDroppedRequest_portfolio,
      PipelineState.retireDroppedRequest_marketPrices]

theorem applyReport_moves {order : Order} (h : s.applyReport c.pipeline rates order report = .ok t) :
    BookMoves c s.book t.book := by
  obtain ⟨filled, booked, notional, recorded, hfilled, hbooked, -, -, rfl⟩ :=
    PipelineState.applyReport_ok.mp h
  have homs : filled.book = s.book := by
    rcases PipelineState.reportToOms_ok hfilled with ⟨rfl, -⟩ | ⟨_, _, -, -, rfl⟩ <;> rfl
  have hmoves := reportToPortfolio_moves hbooked
  rw [homs] at hmoves
  rw [releaseIfTerminal_book]
  exact hmoves

theorem orderStep_moves {s t : RoutingState} {call : PipelineCall}
    (h : orderStep c s call = .ok t) : BookMoves c s.pipeline.book t.pipeline.book := by
  obtain ⟨_, hworks, h⟩ := bind_ok.mp h
  cases pipelineStep_cases (mapError_ok.mp h) with
  | allocate | drop | repeated | triggered | trigger | replacementRefused => exact .refl
  | place _ hplaced =>
    obtain ⟨-, _, -, -, rfl⟩ := PipelineState.submitAndAccept_ok hplaced
    exact .refl
  | fill _ hfilled => exact applyReport_moves hfilled
  | venueReport _ hfilled =>
    have hmoves := applyReport_moves hfilled
    exact hmoves
  | finish hended => exact .of_book (ended_book hended)
  | outcome hended => exact .of_book (ended_book hended)
  | reduce hreduced =>
    obtain ⟨_, _, _, _, _, -, -, -, -, _, rfl⟩ := reduceInPlace_ok hreduced
    exact .refl
  | split | exchange | book => cases require_ok.mp hworks

/-- **A call of a run is moves of its book**, unless it is an exchange. -/
theorem runStep_moves {s t : RoutingState} (hkeyed : Keyed s.pipeline.portfolio)
    (h : runStep c s call = .ok t) (hcall : ∀ request, call ≠ .exchange request) :
    BookMoves c s.pipeline.book t.pipeline.book := by
  have hbook : ∀ call : RunCall, (∀ request, call ≠ .exchange request) →
      bookStep c s call = .ok t → BookMoves c s.pipeline.book t.pipeline.book := by
    intro call hcall h
    obtain ⟨_, -, h⟩ := bind_ok.mp h
    obtain ⟨after, hafter, h⟩ := bind_ok.mp h
    obtain rfl := pure_ok.mp h
    exact call_moves hkeyed hafter hcall
  cases call with
  | order call => exact orderStep_moves h
  | _ => exact hbook _ hcall h

end AlphaLab
