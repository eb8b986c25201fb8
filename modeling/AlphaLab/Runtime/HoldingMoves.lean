/-
  What a run's calls do to what is held of one asset: its position, whether it
  awaits a mark, and the price observed of it.

  * `HoldingMove` says it of one move of the book (`BookMove.holding`), and `Opened`
    of a leg an exchange opens (`exchange_moves`);
  * `runStep_holding` says it of every call of a run.  Invariants of what is held
    are proved by its cases.
-/
import AlphaLab.Runtime.ExchangeMoves

namespace AlphaLab

open Fallible Relation

variable {c : RunConfig} {asset : String}

structure Holding where
  position : Option Position
  pending : Bool
  price : Option Decimal

def RunBook.holding (b : RunBook) (asset : String) : Holding :=
  ⟨b.1.positions.get? asset, decide (asset ∈ b.1.pendingMarks), b.2.get? asset⟩

/-- A position of `asset` booked by what the path books a fill of it by. -/
structure BookedAs (c : RunConfig) (asset : String) (q : Position) : Prop where
  keyed : q.assetId = asset
  booked : q.economics = c.economicsOf asset

/-- What a move of the book does to what is held of `asset`. -/
inductive HoldingMove (c : RunConfig) (asset : String) : Holding → Holding → Prop where
  | same (h : Holding) : HoldingMove c asset h h
  | gone {h h' : Holding} (position : h'.position = none) : HoldingMove c asset h h'
  | flat {h h' : Holding} (units : ∀ q, h.position = some q → q.quantity = 0)
      (position : h'.position = h.position) : HoldingMove c asset h h'
  | filled {h h' : Holding} (q : Position) (units basis realized price : Decimal)
      (timestamp : Instant) (openedAt : Option Instant)
      (held : h.position = some q ∨ BookedAs c asset q) (some_units : units ≠ 0)
      (position : h'.position =
        some (q.rebasedAt units basis realized price timestamp openedAt))
      (pending : h'.pending = true) : HoldingMove c asset h h'
  | marked {h h' : Holding} (q : Position) (price : Decimal) (timestamp : Instant)
      (held : h.position = some q) (position : h'.position = some (q.settle price timestamp).1)
      (observed : h'.price = some price) : HoldingMove c asset h h'
  | split {h h' : Holding} (q : Position) (ratio : Decimal) (timestamp : Instant)
      (ratio_pos : 0 < ratio) (held : h.position = some q)
      (position : h'.position = some (q.split ratio timestamp)) (pending : h'.pending = h.pending)
      (price : h'.price = h.price.map (divide · ratio)) : HoldingMove c asset h h'
  | resized {h h' : Holding} (q : Position) (units basis : Decimal) (timestamp : Instant)
      (held : h.position = some q) (some_units : units ≠ 0)
      (position : h'.position =
        some (q.rebased units basis q.realizedPnl q.marketPrice timestamp))
      (pending : h'.pending = h.pending) (price : h'.price = h.price) : HoldingMove c asset h h'

structure Opened (c : RunConfig) (asset : String) (h h' : Holding) : Prop where
  flat : ∀ q, h.position = some q → q.quantity = 0
  pending : h'.pending = h.pending
  price : h'.price = h.price
  opened : ∃ q, h'.position = some q ∧ q.Standing ∧ q.assetId = asset ∧
    q.economics = (c.declared asset).bind (·.economics) ∧ ∀ price, h.price = some price →
      q.marketPrice = price

/-! ## Moves of the book -/

section
variable {p p' : PortfolioState} {m : Dict String Decimal}

variable {m' : Dict String Decimal}

theorem applyFill_holding {f : Fill} (hdeclared : f.declared = c.economicsOf f.assetId)
    (h : applyFill p f = .ok p') (hm : asset ≠ f.assetId → m'.get? asset = m.get? asset) :
    HoldingMove c asset (RunBook.holding (p, m) asset) (RunBook.holding (p', m') asset) := by
  obtain ⟨hne, _, pos, _, _, _, _, newPos, _, -, hpos, -, -, happly, -, -, -, rfl⟩ := applyFill_ok h
  by_cases hasset : asset = f.assetId
  · subst hasset
    by_cases hzero : newPos.quantity = 0
    · refine .gone ?_
      simp only [RunBook.holding, if_pos hzero]
      exact Dict.get?_delete_self _ _
    · -- the position the fill leaves is the one it was applied to, resized
      obtain ⟨b, r, o, hbooks, -⟩ := pos.applyFill_books f.price f.timestamp hne
      rw [hbooks] at happly
      obtain rfl := (Prod.mk.inj happly).1
      refine .filled pos _ b (pos.realizedPnl + r) f.price f.timestamp o ?_ hzero ?_ ?_
      · unfold fillPosition at hpos
        split at hpos
        · rename_i held hheld
          obtain rfl := pure_ok.mp hpos
          exact Or.inl hheld
        · obtain ⟨hassetId, -, heconomics, -⟩ := flatPosition_terms (orRefuse_ok.mp hpos)
          exact Or.inr ⟨hassetId, heconomics.trans hdeclared⟩
      · simp only [RunBook.holding, if_neg hzero]
        exact Dict.get?_set_self _ _ _
      · simp only [RunBook.holding, if_neg hzero, SortedSet.mem_insert, true_or, decide_true]
  · simp only [RunBook.holding, hm hasset]
    by_cases hzero : newPos.quantity = 0
    · simp only [if_pos hzero, Dict.get?_delete, SortedSet.mem_remove, hasset, decide_false,
        and_true]
      exact .same _
    · simp only [if_neg hzero, Dict.get?_set_of_ne _ _ hasset, SortedSet.mem_insert, hasset,
        false_or]
      exact .same _

def MarkedSo (s : PortfolioState) (prices : Dict String Decimal) (timestamp : Instant)
    (asset : String) (m : Marking) : Prop :=
  (asset ∉ m.marked.keys ∧ m.positions.get? asset = s.positions.get? asset) ∨
    asset ∈ m.marked.keys ∧ ∃ q price, s.positions.get? asset = some q ∧
      prices.get? asset = some price ∧ m.positions.get? asset = some (q.settle price timestamp).1

variable {s : PortfolioState} {prices : Dict String Decimal} {timestamp : Instant}

variable {held : String × Position}

theorem markOne_markedSo {m m' : Marking} (hheld : s.positions.get? held.1 = some held.2)
    (h : markOne s prices timestamp m held = .ok m') (hm : MarkedSo s prices timestamp asset m) :
    MarkedSo s prices timestamp asset m' := by
  obtain ⟨name, position⟩ := held
  have hset : ∀ price, prices.get? name = some price → ∀ m' : Marking,
      m'.marked = m.marked.set name price →
      m'.positions = m.positions.set name (position.settle price timestamp).1 →
      MarkedSo s prices timestamp asset m' := by
    intro price hprice m' hmarked hpositions
    by_cases hasset : asset = name
    · subst hasset
      refine Or.inr ⟨?_, position, price, hheld, hprice, ?_⟩
      · rw [hmarked]
        exact (Dict.mem_keys_set _).mpr (Or.inl rfl)
      · rw [hpositions, Dict.get?_set_self]
    · have hkeys : asset ∈ m'.marked.keys ↔ asset ∈ m.marked.keys := by
        rw [hmarked, Dict.mem_keys_set]
        exact or_iff_right hasset
      rw [MarkedSo, hkeys, hpositions, Dict.get?_set_of_ne _ _ hasset]
      exact hm
  simp only [markOne] at h
  split at h
  · obtain rfl := pure_ok.mp h
    exact hm
  · rename_i price hprice
    obtain ⟨_, -, h⟩ := bind_ok.mp h
    split_ifs at h
    · obtain rfl := pure_ok.mp h
      exact hset price hprice _ rfl rfl
    · obtain ⟨_, -, h⟩ := bind_ok.mp h
      obtain rfl := pure_ok.mp h
      exact hset price hprice _ rfl rfl

/-- An asset among those marked that has a price is marked. -/
theorem mem_marked :
    ∀ {held : List (String × Position)} {m m' : Marking},
      held.foldlM (markOne s prices timestamp) m = .ok m' →
      asset ∈ m.marked.keys ∨ asset ∈ held.map Prod.fst → (prices.get? asset).isSome →
      asset ∈ m'.marked.keys
  | [], m, m', h, hasset, _ => by
    obtain rfl := pure_ok.mp h
    simpa using hasset
  | (name, position) :: held, m, m', h, hasset, hprice => by
    rw [List.foldlM_cons, bind_ok] at h
    obtain ⟨mid, hmid, h⟩ := h
    refine mem_marked h ?_ hprice
    have hmarked : asset ∈ m.marked.keys ∨ asset = name → asset ∈ mid.marked.keys := by
      intro hor
      simp only [markOne] at hmid
      split at hmid
      · rename_i hnone
        obtain rfl := pure_ok.mp hmid
        refine hor.resolve_right ?_
        rintro rfl
        rw [hnone] at hprice
        cases hprice
      · obtain ⟨_, -, hmid⟩ := bind_ok.mp hmid
        split_ifs at hmid
        · obtain rfl := pure_ok.mp hmid
          exact (Dict.mem_keys_set _).mpr hor.symm
        · obtain ⟨_, -, hmid⟩ := bind_ok.mp hmid
          obtain rfl := pure_ok.mp hmid
          exact (Dict.mem_keys_set _).mpr hor.symm
    rw [List.map_cons, List.mem_cons] at hasset
    tauto

theorem markOne_listed {m m' : Marking} (h : markOne s prices timestamp m held = .ok m')
    (hasset : asset ∈ m'.marked.keys) : asset ∈ m.marked.keys ∨ asset = held.1 := by
  obtain ⟨name, position⟩ := held
  simp only [markOne] at h
  split at h
  · exact Or.inl (pure_ok.mp h ▸ hasset)
  · obtain ⟨_, -, h⟩ := bind_ok.mp h
    split_ifs at h
    · obtain rfl := pure_ok.mp h
      exact ((Dict.mem_keys_set _).mp hasset).symm
    · obtain ⟨_, -, h⟩ := bind_ok.mp h
      obtain rfl := pure_ok.mp h
      exact ((Dict.mem_keys_set _).mp hasset).symm

/-- **What marking a list of what is held does of an asset**: marks it, where it is listed and
    priced, and leaves it otherwise. -/
theorem marked_asset {s s' : PortfolioState} {held : List (String × Position)}
    (hheld : ∀ e ∈ held, s.positions.get? e.1 = some e.2)
    (h : marked s held prices timestamp = .ok s') (asset : String) :
    (asset ∈ held.map Prod.fst ∧ ∃ q price, s.positions.get? asset = some q ∧
        prices.get? asset = some price ∧
        s'.positions.get? asset = some (q.settle price timestamp).1) ∨
      s'.positions.get? asset = s.positions.get? asset ∧
        (asset ∈ s'.pendingMarks ↔ asset ∈ s.pendingMarks) ∧
        (asset ∈ held.map Prod.fst → prices.get? asset = none) := by
  obtain ⟨m, hm, h⟩ := bind_ok.mp h
  have hso := foldlM_invariant (fun k : Marking => MarkedSo s prices timestamp asset k) hm
    (Or.inl ⟨by simp, rfl⟩) (fun e he _ _ hstep => markOne_markedSo (hheld e he) hstep)
  by_cases hentries : m.marked.entries = []
  · obtain rfl := pure_ok.mp ((if_pos hentries).symm.trans h)
    refine Or.inr ⟨rfl, Iff.rfl, fun hlisted => ?_⟩
    by_contra hprice
    have hmarked := mem_marked hm (Or.inr hlisted) (Option.isSome_iff_ne_none.mpr hprice)
    simp [Dict.keys, hentries] at hmarked
  · obtain rfl := pure_ok.mp ((if_neg hentries).symm.trans h)
    rcases hso with ⟨hkeys, hposition⟩ | ⟨hkeys, q, price, hq, hprice, hposition⟩
    · refine Or.inr ⟨hposition, by simp [SortedSet.mem_remove, hkeys], fun hlisted => ?_⟩
      by_contra hprice
      exact hkeys (mem_marked hm (Or.inr hlisted) (Option.isSome_iff_ne_none.mpr hprice))
    · refine Or.inl ⟨?_, q, price, hq, hprice, hposition⟩
      refine foldlM_invariant (fun k : Marking => asset ∈ k.marked.keys →
        asset ∈ held.map Prod.fst) hm (by simp) ?_ hkeys
      intro e he k k' hstep hk hmem
      rcases markOne_listed hstep hmem with hmem | rfl
      · exact hk hmem
      · exact List.mem_map_of_mem he

/-- The book marked at prices that differ from those observed at the changed asset only. -/
theorem markChanged_holding {changed : Option String}
    (h : markChanged p m' timestamp changed = .ok p')
    (hprices : m'.get? asset = m.get? asset ∨ changed = some asset ∧ (m'.get? asset).isSome) :
    HoldingMove c asset (RunBook.holding (p, m) asset) (RunBook.holding (p', m') asset) := by
  have hkept : p'.positions.get? asset = p.positions.get? asset →
      (asset ∈ p'.pendingMarks ↔ asset ∈ p.pendingMarks) → m'.get? asset = m.get? asset →
      HoldingMove c asset (RunBook.holding (p, m) asset) (RunBook.holding (p', m') asset) := by
    intro hposition hpending hprice
    simp only [RunBook.holding, hposition, hpending, hprice]
    exact .same _
  unfold markChanged at h
  simp only at h
  split_ifs at h with hassets
  · obtain rfl := pure_ok.mp h
    refine hkept rfl Iff.rfl (hprices.resolve_right ?_)
    rintro ⟨rfl, -⟩
    have hmem : asset ∈ p.pendingMarks.insert asset := SortedSet.mem_insert.mpr (Or.inl rfl)
    rw [SortedSet.mem_def] at hmem
    simp [show (p.pendingMarks.insert asset).members = [] from hassets] at hmem
  rcases marked_asset (markChanged_held p _) h asset with
    ⟨-, q, price, hq, hprice, hposition⟩ | ⟨hposition, hpending, hlisted⟩
  · exact .marked q price timestamp hq hposition hprice
  rcases hprices with hprice | ⟨rfl, hprice⟩
  · exact hkept hposition hpending hprice
  · -- the changed asset is listed wherever it is held
    refine .gone ?_
    cases hheld : p.positions.get? asset with
    | none => exact hposition.trans hheld
    | some q =>
      have hmem : asset ∈ (p.pendingMarks.insert asset).members := by
        rw [← SortedSet.mem_def]
        exact SortedSet.mem_insert.mpr (Or.inl rfl)
      have hnone := hlisted (List.mem_map.mpr ⟨(asset, q),
        List.mem_filterMap.mpr ⟨asset, hmem, by rw [hheld]; rfl⟩, rfl⟩)
      rw [hnone] at hprice
      cases hprice

theorem applySplit_holding {split : Split}
    (h : applySplit p split timestamp = .ok p' ∨ p.positions.get? split.assetId = none ∧ p' = p) :
    HoldingMove c asset (RunBook.holding (p, m) asset) (RunBook.holding (p',
      (m.get? split.assetId).elim m
        fun price => m.set split.assetId (divide price split.ratio)) asset) := by
  have hprice : ∀ a, ((m.get? split.assetId).elim m fun price =>
      m.set split.assetId (divide price split.ratio)).get? a =
        if a = split.assetId then (m.get? a).map (divide · split.ratio) else m.get? a := by
    intro a
    by_cases ha : a = split.assetId
    · subst ha
      cases hobserved : m.get? split.assetId with
      | none => simp [hobserved]
      | some price => simp [Dict.get?_set_self]
    · cases m.get? split.assetId with
      | none => simp [ha]
      | some price => simp [ha, Dict.get?_set_of_ne]
  by_cases hasset : asset = split.assetId
  · subst hasset
    rcases h with h | ⟨hnone, rfl⟩
    · obtain ⟨position, hposition, rfl⟩ := applySplit_ok h
      refine .split position split.ratio timestamp split.ratio_pos hposition ?_ rfl ?_
      · exact Dict.get?_set_self _ _ _
      · exact (hprice _).trans (if_pos rfl)
    · exact .gone hnone
  · have hposition : p'.positions.get? asset = p.positions.get? asset ∧
        p'.pendingMarks = p.pendingMarks := by
      rcases h with h | ⟨-, rfl⟩
      · obtain ⟨position, -, rfl⟩ := applySplit_ok h
        exact ⟨Dict.get?_set_of_ne _ _ hasset, rfl⟩
      · exact ⟨rfl, rfl⟩
    simp only [RunBook.holding, hprice, if_neg hasset, hposition.1, hposition.2]
    exact .same _

theorem amendDelivery_holding {a : DeliveryAmendment} {parts : List (String × Decimal)}
    (h : amendDelivery p a = .ok (p', parts)) :
    HoldingMove c asset (RunBook.holding (p, m) asset) (RunBook.holding (p', m) asset) := by
  rcases amendDelivery_ok h with ⟨-, rfl⟩ | ⟨d, ch, _, -, -, -, rfl⟩
  · exact .same _
  by_cases hzero : ch.writtenOff = 0
  · simp only [RunBook.holding, if_pos hzero]
    exact .same _
  simp only [RunBook.holding, if_neg hzero, writeOffUnits]
  cases hheld : p.positions.get? a.assetId with
  | none => exact .same _
  | some position =>
    by_cases hasset : asset = a.assetId
    · subst hasset
      by_cases hgone : position.quantity - ch.writtenOff = 0
      · refine .gone ?_
        simp only [if_pos hgone]
        exact Dict.get?_delete_self _ _
      · refine .resized position _ (position.basis - shareOf d.basis ch.writtenOff d.owed)
          a.timestamp hheld hgone ?_ rfl rfl
        simp only [if_neg hgone]
        exact Dict.get?_set_self _ _ _
    · by_cases hgone : position.quantity - ch.writtenOff = 0
      · simp only [if_pos hgone, Dict.get?_delete, if_neg hasset]
        exact .same _
      · simp only [if_neg hgone, Dict.get?_set_of_ne _ _ hasset]
        exact .same _

end

theorem BookMove.holding {b b' : RunBook} (h : BookMove c b b') (asset : String) :
    HoldingMove c asset (b.holding asset) (b'.holding asset) := by
  cases h with
  | beside positions marks prices =>
    simp only [RunBook.holding, positions, marks, prices]
    exact .same _
  | fill f declared filled => exact applyFill_holding declared filled fun _ => rfl
  | mark timestamp changed marked => exact markChanged_holding marked (Or.inl rfl)
  | observe timestamp a price marked =>
    refine markChanged_holding marked ?_
    by_cases ha : asset = a
    · subst ha
      exact Or.inr ⟨rfl, by simp [Dict.get?_set_self]⟩
    · exact Or.inl (Dict.get?_set_of_ne _ _ ha)
  | split split timestamp restated => exact applySplit_holding restated
  | writeOff a parts amended => exact amendDelivery_holding amended
  | @priced p m a price flat =>
    by_cases ha : asset = a
    · subst ha
      exact .flat flat rfl
    · simp only [RunBook.holding, Dict.get?_set_of_ne _ _ ha]
      exact .same _
  | closed a price f declared filled contract gone =>
    refine applyFill_holding declared filled fun ha => ?_
    exact Dict.get?_set_of_ne _ _ (contract ▸ ha)

theorem exchangeContext_declared (c : RunConfig) (prices : Dict String Decimal)
    (shares : List (String × Decimal)) (asset : String) :
    ({ c.exchangeContext prices with shares := shares } : ExchangeContext).declared asset =
      (c.declared asset).map (·.toInstrumentRecord) := by
  unfold ExchangeContext.declared RunConfig.declared RunConfig.exchangeContext
    RunConfig.exchangeRegistry
  cases c.instruments with
  | none => rfl
  | some registry => exact registry.dict.get?_mapValues _ _

structure PlansOf (c : RunConfig) (p : Planning) : Prop where
  declared : ∀ asset, p.ctx.declared asset = (c.declared asset).map (·.toInstrumentRecord)
  wholes : p.ctx.enforceIntegerQuantities = c.enforceIntegerQuantities

theorem PlansOf.economics_eq {p : Planning} (h : PlansOf c p) (leg : ExchangeLeg) :
    p.economics leg = (c.declared leg.assetId).bind (·.economics) := by
  rw [Planning.economics, h.declared, Option.bind_map]
  rfl

variable {r : ExchangeRequest}

/-- **What an accepted exchange of a run did to its book**: nothing, or it moved the holding
    and its legs by a plan of the run's own declarations. -/
theorem exchange_moves {s t : PipelineState}
    (h : s.applyExchange c.pipeline (c.exchangeContext s.marketPrices) r = .ok t) :
    t.marketPrices = s.marketPrices ∧
    (((∀ q, s.portfolio.positions.get? r.exchange.assetId = some q → q.quantity = 0) ∧
        t.portfolio = s.portfolio) ∨
      ∃ held p, s.portfolio.positions.get? r.exchange.assetId = some held ∧ held.quantity ≠ 0 ∧
        PlansOf c p ∧ p.units = |r.unitsOf held| ∧ p.ctx.marketPrices = s.marketPrices ∧
        ExchangeMoves r.exchange p s.portfolio t.portfolio) := by
  obtain ⟨current, hcancel, hprices, hbook⟩ := exchange_book h
  have hcurrent := cancelWorking_book hcancel
  have hportfolio : current.portfolio = s.portfolio := congrArg Prod.fst hcurrent
  have hmarket : current.marketPrices = s.marketPrices := congrArg Prod.snd hcurrent
  refine ⟨hprices.trans hmarket, ?_⟩
  rcases hbook with ⟨hflat, rfl⟩ | hexchange
  · exact Or.inl ⟨fun q hq => hflat q (hportfolio ▸ hq), hportfolio⟩
  rw [hportfolio] at hexchange
  rcases exchangeHolding_moves hexchange with ⟨hflat, hsame⟩ | ⟨held, exchanged, hheld, hne, hunits, hmoves⟩
  · exact Or.inl ⟨hflat, hsame⟩
  · refine Or.inr ⟨held, _, hheld, hne, ⟨fun asset => ?_, rfl⟩, ?_, rfl, hmoves⟩
    · exact exchangeContext_declared c _ _ asset
    · rw [← hunits]
      rfl

theorem ExchangeMoves.holding_or {x : HoldingExchange} {p : Planning} {before after : PortfolioState}
    (h : ExchangeMoves x p before after) (hp : PlansOf c p) (asset : String) :
    HoldingMove c asset (RunBook.holding (before, p.ctx.marketPrices) asset)
        (RunBook.holding (after, p.ctx.marketPrices) asset) ∨
      Opened c asset (RunBook.holding (before, p.ctx.marketPrices) asset)
        (RunBook.holding (after, p.ctx.marketPrices) asset) := by
  have hpending : decide (asset ∈ after.pendingMarks) = decide (asset ∈ before.pendingMarks) := by
    rw [h.marks]
  have hresized : ∀ held q, before.positions.get? asset = some held →
      after.positions.get? asset = some q → held.Resized q →
      HoldingMove c asset (RunBook.holding (before, p.ctx.marketPrices) asset)
        (RunBook.holding (after, p.ctx.marketPrices) asset) := by
    rintro held q hheld hq ⟨units, basis, timestamp, hne, rfl⟩
    exact .resized held units basis timestamp hheld hne hq hpending rfl
  by_cases hasset : asset = x.assetId
  · subst hasset
    cases hq : after.positions.get? x.assetId with
    | none => exact Or.inl (.gone hq)
    | some q =>
      obtain ⟨held, hheld, hq'⟩ := h.holding q hq
      exact Or.inl (hresized held q hheld hq hq')
  by_cases hleg : ∃ leg ∈ x.legs, p.whole leg ≠ 0 ∧ leg.assetId = asset
  · obtain ⟨leg, hleg, hwhole, rfl⟩ := hleg
    obtain ⟨e, q, hopens, hq, hjoins⟩ := h.received leg hleg hwhole
    rcases hjoins with ⟨held, hheld, -, hq'⟩ | ⟨hflat, hstanding, hname, heconomics, hprice⟩
    · exact Or.inl (hresized held q hheld hq hq')
    · refine Or.inr ⟨hflat, hpending, rfl, q, hq, hstanding, hname.trans hopens.asset, ?_, ?_⟩
      · rw [heconomics, hopens.economics, hp.economics_eq]
      · intro price hobserved
        exact hprice.trans (hopens.price price hobserved)
  · refine Or.inl ?_
    simp only [RunBook.holding, hpending]
    rw [h.others asset hasset fun leg hleg' hwhole he => hleg ⟨leg, hleg', hwhole, he⟩]
    exact .same _

theorem runStep_exchange {s t : RoutingState} (h : runStep c s (.exchange r) = .ok t) :
    s.pipeline.applyExchange c.pipeline (c.exchangeContext s.pipeline.marketPrices) r =
      .ok t.pipeline := by
  obtain ⟨_, -, h⟩ := bind_ok.mp h
  obtain ⟨after, hafter, h⟩ := bind_ok.mp h
  obtain rfl := pure_ok.mp h
  exact mapError_ok.mp hafter

variable {call : RunCall}

theorem runStep_holding {s t : RoutingState} (hkeyed : Keyed s.pipeline.portfolio)
    (h : runStep c s call = .ok t) (asset : String) :
    ReflTransGen (HoldingMove c asset) (s.pipeline.book.holding asset)
        (t.pipeline.book.holding asset) ∨
      Opened c asset (s.pipeline.book.holding asset) (t.pipeline.book.holding asset) := by
  by_cases hcall : ∃ r, call = .exchange r
  · obtain ⟨r, rfl⟩ := hcall
    obtain ⟨hprices, ⟨-, hsame⟩ | ⟨_, p, -, -, hp, -, hmarket, hmoves⟩⟩ :=
      exchange_moves (runStep_exchange h)
    · refine Or.inl ?_
      rw [PipelineState.book, PipelineState.book, hprices, hsame]
    · have hholding := hmoves.holding_or hp asset
      rw [hmarket] at hholding
      rw [PipelineState.book, PipelineState.book, hprices]
      exact hholding.imp .single id
  · have hmoves := runStep_moves hkeyed h fun r hr => hcall ⟨r, hr⟩
    exact Or.inl (hmoves.lift _ fun _ _ hmove => hmove.holding asset)

/-! ## What every call preserves -/

theorem Position.SameTerms.refl (p : Position) : p.SameTerms p := ⟨rfl, rfl, rfl, rfl⟩

theorem BookedAs.of_terms {q q' : Position} (h : BookedAs c asset q) (hterms : q.SameTerms q') :
    BookedAs c asset q' :=
  ⟨hterms.1.trans h.keyed, hterms.2.2.2.trans h.booked⟩

variable {h h' : Holding} {q' : Position}

/-- **A move leaves a position on its terms**, or opens it as a fill of it. -/
theorem HoldingMove.terms (hmove : HoldingMove c asset h h') (hq' : h'.position = some q') :
    (∃ q, h.position = some q ∧ q.SameTerms q') ∨ BookedAs c asset q' := by
  cases hmove with
  | same => exact Or.inl ⟨q', hq', .refl q'⟩
  | gone position =>
    rw [position] at hq'
    cases hq'
  | flat units position => exact Or.inl ⟨q', position ▸ hq', .refl q'⟩
  | filled q units basis realized price timestamp openedAt held some_units position pending =>
    obtain rfl := Option.some.inj (position.symm.trans hq')
    rcases held with held | held
    · exact Or.inl ⟨q, held, q.rebasedAt_terms ..⟩
    · exact Or.inr (held.of_terms (q.rebasedAt_terms ..))
  | marked q price timestamp held position observed =>
    obtain rfl := Option.some.inj (position.symm.trans hq')
    exact Or.inl ⟨q, held, q.settle_terms ..⟩
  | split q ratio timestamp ratio_pos held position pending price =>
    obtain rfl := Option.some.inj (position.symm.trans hq')
    exact Or.inl ⟨q, held, q.split_terms ..⟩
  | resized q units basis timestamp held some_units position pending price =>
    obtain rfl := Option.some.inj (position.symm.trans hq')
    exact Or.inl ⟨q, held, q.rebasedAt_terms ..⟩

theorem moves_preserve {P : Holding → Prop} (hmove : ∀ h h', HoldingMove c asset h h' → P h → P h')
    (hmoves : ReflTransGen (HoldingMove c asset) h h') (hP : P h) : P h' := by
  induction hmoves with
  | refl => exact hP
  | tail _ hlast ih => exact hmove _ _ hlast ih

theorem runStep_preserves {P : Holding → Prop} {s t : RoutingState}
    (hmove : ∀ h h', HoldingMove c asset h h' → P h → P h')
    (hopened : ∀ h h', Opened c asset h h' → P h → P h') (hkeyed : Keyed s.pipeline.portfolio)
    (h : runStep c s call = .ok t) (hs : P (s.pipeline.book.holding asset)) :
    P (t.pipeline.book.holding asset) := by
  rcases runStep_holding hkeyed h asset with hmoves | hopens
  · exact moves_preserve hmove hmoves hs
  · exact hopened _ _ hopens hs

theorem runStep_keyed {s t : RoutingState} (h : runStep c s call = .ok t)
    (hs : Keyed s.pipeline.portfolio) : Keyed t.pipeline.portfolio := by
  intro asset
  refine runStep_preserves (P := fun h => ∀ q, h.position = some q → q.assetId = asset) ?_ ?_ hs h
    (hs asset)
  · intro h h' hmove hP q' hq'
    rcases hmove.terms hq' with ⟨q, hq, hterms⟩ | hbooked
    · exact hterms.1.trans (hP q hq)
    · exact hbooked.keyed
  · intro h h' hopens _ q' hq'
    obtain ⟨q, hq, -, hname, -⟩ := hopens.opened
    exact Option.some.inj (hq.symm.trans hq') ▸ hname

end AlphaLab
