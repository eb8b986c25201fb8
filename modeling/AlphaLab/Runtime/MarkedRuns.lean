/-
  Whether marking what one price changed is marking the whole book.

  * `Holding.Marked`: a position that awaits no mark is at the price observed of
    its asset, in every state of every run;
  * `mark_one_marks_all`: marking one price marks the book iff no other position
    would settle anything at its own mark again.  `three_futures_settle_again` is a
    run where one does.
-/
import AlphaLab.Runtime.HoldingMoves

namespace AlphaLab

open Fallible Relation

variable {c : RunConfig} {asset : String}

/-- What is held stands, and is at the price observed unless it awaits a mark. -/
structure Holding.Marked (h : Holding) : Prop where
  standing : ∀ q, h.position = some q → q.Standing
  marked : ∀ q price, h.position = some q → h.pending = false → h.price = some price →
    q.marketPrice = price

variable {h h' : Holding}

theorem HoldingMove.keeps_marked (hmove : HoldingMove c asset h h') (hmarked : h.Marked) :
    h'.Marked := by
  cases hmove with
  | same => exact hmarked
  | gone position =>
    constructor <;> intro q <;> simp [position]
  | flat units position =>
    have hnone : h'.position = none := by
      rw [position]
      by_contra hne
      obtain ⟨q, hq⟩ := Option.ne_none_iff_exists'.mp hne
      exact (hmarked.standing q hq).units (units q hq)
    constructor <;> intro q <;> simp [hnone]
  | filled q units basis realized price timestamp openedAt held some_units position pending =>
    constructor
    · intro q' hq'
      obtain rfl := Option.some.inj (position.symm.trans hq')
      exact q.rebasedAt_standing _ _ _ _ _ some_units
    · intro _ _ _ hpending
      simp [pending] at hpending
  | marked q price timestamp held position observed =>
    constructor
    · intro q' hq'
      obtain rfl := Option.some.inj (position.symm.trans hq')
      exact Position.settle_standing (hmarked.standing q held) price timestamp
    · intro q' price' hq' _ hprice'
      obtain rfl := Option.some.inj (position.symm.trans hq')
      exact (q.settle_marketPrice price timestamp).trans
        (Option.some.inj (observed.symm.trans hprice'))
  | split q ratio timestamp ratio_pos held position pending price =>
    have hne : multiply q.quantity ratio ≠ 0 :=
      inContext_eq_zero.not.mpr (mul_ne_zero (hmarked.standing q held).units ratio_pos.ne')
    constructor
    · intro q' hq'
      obtain rfl := Option.some.inj (position.symm.trans hq')
      exact q.rebasedAt_standing _ _ _ _ _ hne
    · intro q' price' hq' hpending' hprice'
      obtain rfl := Option.some.inj (position.symm.trans hq')
      rw [price, Option.map_eq_some_iff] at hprice'
      obtain ⟨observed, hobserved, rfl⟩ := hprice'
      have hat := hmarked.marked q observed held (pending ▸ hpending') hobserved
      exact congrArg (divide · ratio) hat
  | resized q units basis timestamp held some_units position pending price =>
    constructor
    · intro q' hq'
      obtain rfl := Option.some.inj (position.symm.trans hq')
      exact q.rebasedAt_standing _ _ _ _ _ some_units
    · intro q' price' hq' hpending' hprice'
      obtain rfl := Option.some.inj (position.symm.trans hq')
      exact hmarked.marked q price' held (pending ▸ hpending') (price ▸ hprice')

theorem Opened.marked (hopened : Opened c asset h h') : h'.Marked := by
  obtain ⟨q, hq, hstanding, -, -, hprice⟩ := hopened.opened
  constructor
  · intro q' hq'
    exact Option.some.inj (hq.symm.trans hq') ▸ hstanding
  · intro q' price hq' _ hobserved
    obtain rfl := Option.some.inj (hq.symm.trans hq')
    exact hprice price (hopened.price ▸ hobserved)

/-- **Every position of a run that awaits no mark is at its observed price**, and stands. -/
theorem reached_marked {budget : CapitalBudget} {account : Account} {s : RoutingState}
    (h : Reached c (fun _ _ => True) budget account s) (asset : String) :
    (s.pipeline.book.holding asset).Marked := by
  have hinv := Runs.invariant (fun s : RoutingState => Keyed s.pipeline.portfolio ∧
    (s.pipeline.book.holding asset).Marked) h ⟨?_, ?_⟩ ?_
  · exact hinv.2
  · intro asset q hq
    simp [RoutingState.initial, PortfolioState.opened] at hq
  · constructor <;> intro q <;>
      simp [RunBook.holding, PipelineState.book, RoutingState.initial, PortfolioState.opened]
  · intro s call t hs _ hstep
    refine ⟨runStep_keyed hstep hs.1, ?_⟩
    exact runStep_preserves (P := Holding.Marked) (fun _ _ hmove => hmove.keeps_marked)
      (fun _ _ hopened _ => hopened.marked) hs.1 hstep hs.2

/-! ## What a mark moves -/

namespace Position

/-- What marking the position at `price` settles as cash. -/
def variation (q : Position) (price : Decimal) : Decimal :=
  if q.paysNotional ∨ q.quantity = 0 then 0
  else q.money (q.scaled (multiply q.quantity (subtract price q.averageCost)))

/-- Whether marking the position at `price` would move nothing: its trades pay its value,
    or it settles nothing there and its basis is that price's. -/
def Rests (q : Position) (price : Decimal) : Prop :=
  q.paysNotional = true ∨
    q.variation price = 0 ∧ q.basis = q.money (q.scaled (multiply |q.quantity| price))

variable {q : Position}

theorem Rests.variation_eq {price : Decimal} (h : q.Rests price) : q.variation price = 0 := by
  rcases h with hpays | ⟨hvariation, -⟩
  · simp [variation, hpays]
  · exact hvariation

def Same (q q' : Position) : Prop := q' = { q with lastUpdated := q'.lastUpdated }

theorem Same.refl (q : Position) : q.Same q := rfl

theorem settle_amount (q : Position) (price : Decimal) (timestamp : Instant) :
    (q.settle price timestamp).2 = q.variation price := by
  unfold settle variation
  split_ifs <;> rfl

/-- **A mark at the price a position is at moves nothing iff it rests there.** -/
theorem Standing.same_iff (hq : q.Standing) (timestamp : Instant) :
    q.Same (q.settle q.marketPrice timestamp).1 ↔ q.Rests q.marketPrice := by
  obtain ⟨hne, basis, hbasis, haverage⟩ := hq
  by_cases hpays : q.paysNotional = true
  · refine iff_of_true ?_ (Or.inl hpays)
    simp only [settle, hpays, true_or, if_true]
    rfl
  have hnot : ¬ (q.paysNotional = true ∨ q.quantity = 0) := by tauto
  have hown : q.basis = basis := by rw [Position.basis, hbasis, Option.getD_some]
  simp only [settle, if_neg hnot, Rests, variation, hown]
  simp only [hpays, false_or, Bool.false_eq_true]
  constructor
  · intro hsame
    have hrealized := congrArg Position.realizedPnl hsame
    have hcost := congrArg Position.costBasis hsame
    simp only [rebased, rebasedAt, hbasis, Option.some.injEq] at hrealized hcost
    exact ⟨by linarith, hcost.symm⟩
  · rintro ⟨hamount, hbased⟩
    simp only [hamount, add_zero, ← hbased, Same, rebased, rebasedAt, if_pos hne, ← haverage,
      ← hbasis]

end Position

/-- What marking what is held of an asset settles as cash. -/
def variationOf (prices : Dict String Decimal) (e : String × Position) : Decimal :=
  (prices.get? e.1).elim 0 e.2.variation

/-- What is held may be marked: its economics admit its price, and what it settles is in a
    currency. -/
def Markable (prices : Dict String Decimal) (e : String × Position) : Prop :=
  ∀ price, prices.get? e.1 = some price →
    (e.2.economics.getD cashEquity).admitsPrice price = true ∧
      (e.2.variation price ≠ 0 → ¬ blank e.2.currency)

def Transaction.unnumbered (t : Transaction) : Transaction := { t with transactionId := 0 }

/-- The entry of what marking `e` settles. -/
def variationEntry (s : PortfolioState) (prices : Dict String Decimal) (timestamp : Instant)
    (e : String × Position) : Transaction :=
  (variationTransaction s [] e.1 e.2 ((prices.get? e.1).getD 0) timestamp).unnumbered

variable {e : String × Position}

section
variable {s : PortfolioState} {prices : Dict String Decimal} {timestamp : Instant}

/-- What marking `held` moves, of what `m` had moved. -/
structure Settles (s : PortfolioState) (prices : Dict String Decimal) (timestamp : Instant)
    (held : List (String × Position)) (m m' : Marking) : Prop where
  cash : ∀ currency, m'.cash.balance currency = m.cash.balance currency +
    (held.map fun e => if e.2.currency = currency then variationOf prices e else 0).sum
  realized : ∀ currency, m'.realizedPnl.of currency = m.realizedPnl.of currency +
    (held.map fun e => if e.2.currency = currency then variationOf prices e else 0).sum
  ledger : m'.ledger.map (·.unnumbered) = m.ledger.map (·.unnumbered) ++
    (held.filter fun e => variationOf prices e ≠ 0).map (variationEntry s prices timestamp)

variable {m m' : Marking}

theorem Settles.nothing (hzero : variationOf prices e = 0) (hcash : m'.cash = m.cash)
    (hrealized : m'.realizedPnl = m.realizedPnl) (hledger : m'.ledger = m.ledger) :
    Settles s prices timestamp [e] m m' := by
  constructor <;> simp [hzero, hcash, hrealized, hledger]

/-- **One mark is accepted iff what is held may be marked.** -/
theorem markOne_accepts (m : Marking) (e : String × Position) :
    (∃ m', markOne s prices timestamp m e = .ok m') ↔ Markable prices e := by
  obtain ⟨name, q⟩ := e
  simp only [markOne, Markable]
  cases hprice : prices.get? name with
  | none => simp [pure_ok]
  | some price =>
    simp only [bind_ok, require_ok, Position.settle_amount, Option.some.injEq, forall_eq']
    by_cases hzero : q.variation price = 0
    · simp [hzero, pure_ok]
    · simp only [if_neg hzero, bind_ok, pure_ok, CurrencyAmounts.add, require_ok]
      constructor
      · rintro ⟨_, _, hadmits, _, ⟨_, hblank, -⟩, -⟩
        exact ⟨hadmits, fun _ => hblank⟩
      · rintro ⟨hadmits, hblank⟩
        exact ⟨_, (), hadmits, _, ⟨(), hblank hzero, rfl⟩, rfl⟩

/-- **What one mark moves** is its variation. -/
theorem markOne_settles (h : markOne s prices timestamp m e = .ok m') :
    Settles s prices timestamp [e] m m' := by
  obtain ⟨name, q⟩ := e
  simp only [markOne] at h
  cases hprice : prices.get? name with
  | none =>
    rw [hprice] at h
    obtain rfl := pure_ok.mp h
    exact .nothing (by simp [variationOf, hprice]) rfl rfl rfl
  | some price =>
    have hvariation : variationOf prices (name, q) = q.variation price := by
      simp [variationOf, hprice]
    rw [hprice] at h
    obtain ⟨_, -, h⟩ := bind_ok.mp h
    simp only [Position.settle_amount] at h
    by_cases hzero : q.variation price = 0
    · obtain rfl := pure_ok.mp ((if_pos hzero).symm.trans h)
      exact .nothing (hvariation.trans hzero) rfl rfl rfl
    · obtain ⟨realized, hrealized, h⟩ := bind_ok.mp ((if_neg hzero).symm.trans h)
      obtain ⟨_, -, hrealized⟩ := bind_ok.mp hrealized
      obtain rfl := pure_ok.mp hrealized
      obtain rfl := pure_ok.mp h
      constructor
      · intro currency
        by_cases hcurrency : q.currency = currency
        · subst hcurrency
          simp [CashLedger.settle, CashLedger.balance, Dict.get?_set_self, hvariation]
        · simp [CashLedger.settle, CashLedger.balance, Dict.get?_set_of_ne _ _ (Ne.symm hcurrency),
            hcurrency]
      · intro currency
        by_cases hcurrency : q.currency = currency
        · subst hcurrency
          simp [CurrencyAmounts.of, Dict.get?_set_self, hvariation]
        · simp [CurrencyAmounts.of, Dict.get?_set_of_ne _ _ (Ne.symm hcurrency), hcurrency]
      · simp [hvariation, hzero, variationEntry, variationTransaction, hprice,
          Transaction.unnumbered]

variable {l l' : List (String × Position)}

theorem Settles.trans {m m' m'' : Marking} (h : Settles s prices timestamp l m m')
    (h' : Settles s prices timestamp l' m' m'') : Settles s prices timestamp (l ++ l') m m'' := by
  constructor
  · intro currency
    rw [h'.cash, h.cash, List.map_append, List.sum_append]
    ring
  · intro currency
    rw [h'.realized, h.realized, List.map_append, List.sum_append]
    ring
  · rw [h'.ledger, h.ledger, List.filter_append, List.map_append, List.append_assoc]

/-- **A list of holdings is marked iff each may be**, in whatever order. -/
theorem marks_accept : ∀ (held : List (String × Position)) (m : Marking),
    (∃ m', held.foldlM (markOne s prices timestamp) m = .ok m') ↔ ∀ e ∈ held, Markable prices e
  | [], m => by simp [pure_ok]
  | e :: held, m => by
    simp only [List.foldlM_cons, bind_ok, List.forall_mem_cons]
    constructor
    · rintro ⟨m'', m', hfirst, hrest⟩
      exact ⟨(markOne_accepts m e).mp ⟨m', hfirst⟩, (marks_accept held m').mp ⟨m'', hrest⟩⟩
    · rintro ⟨hfirst, hrest⟩
      obtain ⟨m', hm'⟩ : ∃ m', markOne s prices timestamp m e = .ok m' :=
        (markOne_accepts m e).mpr hfirst
      obtain ⟨m'', hm''⟩ := (marks_accept held m').mpr hrest
      exact ⟨m'', m', hm', hm''⟩

/-- **What marking a list of holdings moves.** -/
theorem marks_settle : ∀ {held : List (String × Position)} {m m' : Marking},
    held.foldlM (markOne s prices timestamp) m = .ok m' → Settles s prices timestamp held m m'
  | [], m, m', h => by
    obtain rfl := pure_ok.mp h
    constructor <;> simp
  | e :: held, m, m', h => by
    rw [List.foldlM_cons] at h
    obtain ⟨mid, hmid, h⟩ := bind_ok.mp h
    exact (markOne_settles hmid).trans (marks_settle h)

def PortfolioState.marking (s : PortfolioState) : Marking :=
  ⟨s.positions, s.cash, s.realizedPnl, s.ledger, Dict.empty, []⟩

variable {held : List (String × Position)}

theorem marked_accepts :
    (∃ s', marked s held prices timestamp = .ok s') ↔ ∀ e ∈ held, Markable prices e := by
  have haccept : (∃ m, held.foldlM (markOne s prices timestamp) s.marking = .ok m) ↔ _ :=
    marks_accept held s.marking
  rw [← haccept]
  simp only [marked, bind_ok]
  constructor
  · rintro ⟨s', m, hm, -⟩
    exact ⟨m, hm⟩
  · rintro ⟨m, hm⟩
    by_cases hentries : m.marked.entries = []
    · exact ⟨s, m, hm, by simp [hentries, pure_ok]⟩
    · exact ⟨_, m, hm, if_neg hentries⟩

theorem marked_settles {s' : PortfolioState} (h : marked s held prices timestamp = .ok s') :
    Settles s prices timestamp held s.marking s'.marking := by
  obtain ⟨m, hm, h⟩ := bind_ok.mp h
  have hsettles := marks_settle hm
  by_cases hentries : m.marked.entries = []
  · obtain rfl := pure_ok.mp ((if_pos hentries).symm.trans h)
    -- nothing marked is nothing priced
    have hzero : ∀ e ∈ held, variationOf prices e = 0 := by
      intro e he
      cases hprice : prices.get? e.1 with
      | none => simp [variationOf, hprice]
      | some price =>
        have hlisted : e.1 ∈ s.marking.marked.keys ∨ e.1 ∈ held.map Prod.fst :=
          Or.inr (List.mem_map_of_mem he)
        have hmarked := mem_marked hm hlisted (by simp [hprice])
        simp [Dict.keys, hentries] at hmarked
    have hsum : ∀ currency, (held.map fun e =>
        if e.2.currency = currency then variationOf prices e else 0).sum = 0 := by
      intro currency
      refine List.sum_eq_zero ?_
      simp only [List.mem_map]
      rintro _ ⟨e, he, rfl⟩
      simp [hzero e he]
    refine ⟨fun currency => ?_, fun currency => ?_, ?_⟩
    · rw [hsum, add_zero]
    · rw [hsum, add_zero]
    · rw [List.filter_eq_nil_iff.mpr (by simpa using hzero)]
      simp
  · obtain rfl := pure_ok.mp ((if_neg hentries).symm.trans h)
    exact ⟨hsettles.cash, hsettles.realized, hsettles.ledger⟩

/-! ## One mark and all of them -/

/-- The same positions aside when they were last updated, cash, realized P&L and ledger
    entries, in whatever order. -/
structure SameMarks (one all : PortfolioState) : Prop where
  positions : ∀ asset, Option.Rel Position.Same (one.positions.get? asset)
    (all.positions.get? asset)
  cash : ∀ currency, one.cash.balance currency = all.cash.balance currency
  realized : ∀ currency, one.realizedPnl.of currency = all.realizedPnl.of currency
  ledger : (one.ledger.map (·.unnumbered)).Perm (all.ledger.map (·.unnumbered))

theorem Settles.same {m one all : Marking} (hone : Settles s prices timestamp l m one)
    (hall : Settles s prices timestamp l' m all) (hperm : (l.filter fun e => variationOf prices e ≠
      0).Perm (l'.filter fun e => variationOf prices e ≠ 0)) :
    (∀ currency, one.cash.balance currency = all.cash.balance currency) ∧
      (∀ currency, one.realizedPnl.of currency = all.realizedPnl.of currency) ∧
      (one.ledger.map (·.unnumbered)).Perm (all.ledger.map (·.unnumbered)) := by
  have hfilter : ∀ (l : List (String × Position)) currency, (l.map fun e =>
      if e.2.currency = currency then variationOf prices e else 0).sum =
      ((l.filter fun e => variationOf prices e ≠ 0).map fun e =>
        if e.2.currency = currency then variationOf prices e else 0).sum := by
    intro l currency
    induction l with
    | nil => rfl
    | cons e l ih =>
      by_cases he : variationOf prices e = 0
      · simpa [he] using ih
      · simpa [he] using ih
  have hsum : ∀ currency, (l.map fun e =>
      if e.2.currency = currency then variationOf prices e else 0).sum =
      (l'.map fun e => if e.2.currency = currency then variationOf prices e else 0).sum := by
    intro currency
    rw [hfilter l, hfilter l']
    exact (hperm.map _).sum_eq
  refine ⟨fun currency => ?_, fun currency => ?_, ?_⟩
  · rw [hone.cash, hall.cash, hsum]
  · rw [hone.realized, hall.realized, hsum]
  · rw [hone.ledger, hall.ledger]
    exact (hperm.map _).append_left _

end

def heldAmong (p : PortfolioState) (assets : List String) : List (String × Position) :=
  assets.filterMap fun asset => (p.positions.get? asset).map (asset, ·)

section
variable {p : PortfolioState} {prices : Dict String Decimal} {timestamp : Instant}
  {changed : Option String}

/-- The assets `mark_changed` marks: the changed one, and those that await a mark. -/
def markedAssets (p : PortfolioState) (changed : Option String) : List String :=
  (changed.elim p.pendingMarks p.pendingMarks.insert).members

theorem mem_markedAssets {asset : String} :
    asset ∈ markedAssets p changed ↔ changed = some asset ∨ asset ∈ p.pendingMarks := by
  unfold markedAssets
  rw [← SortedSet.mem_def]
  cases changed with
  | none => simp
  | some a => simp [eq_comm]

theorem markChanged_eq :
    markChanged p prices timestamp changed =
      marked p (heldAmong p (markedAssets p changed)) prices timestamp := by
  simp only [markChanged]
  split_ifs with hassets
  · rw [markedAssets, hassets]
    rfl
  · rfl

variable {assets : List String}

theorem mem_heldAmong :
    e ∈ heldAmong p assets ↔ e.1 ∈ assets ∧ p.positions.get? e.1 = some e.2 := by
  obtain ⟨name, q⟩ := e
  simp only [heldAmong, List.mem_filterMap, Option.map_eq_some_iff, Prod.mk.injEq]
  constructor
  · rintro ⟨_, hmem, _, hq, rfl, rfl⟩
    exact ⟨hmem, hq⟩
  · rintro ⟨hmem, hq⟩
    exact ⟨name, hmem, q, hq, rfl, rfl⟩

theorem nodup_heldAmong (h : assets.Nodup) : (heldAmong p assets).Nodup := by
  refine h.filterMap ?_
  intro a b e ha hb
  obtain ⟨_, -, rfl⟩ := Option.map_eq_some_iff.mp ha
  obtain ⟨_, -, he⟩ := Option.map_eq_some_iff.mp hb
  exact (Prod.mk.inj he).1.symm

theorem markChanged_refused {refused : PortfolioRefusal}
    (h : markChanged p prices timestamp changed = .error refused) :
    ¬ ∃ all, updateMarketPrices p prices timestamp = .ok all := by
  intro hall
  have hmarkable := marked_accepts.mp hall
  have hone : ∃ one, marked p (heldAmong p (markedAssets p changed)) prices timestamp = .ok one := by
    refine marked_accepts.mpr fun e he => hmarkable e ?_
    exact (Dict.get?_eq_some _).mp (mem_heldAmong.mp he).2
  obtain ⟨one, hone⟩ := hone
  rw [markChanged_eq, hone] at h
  cases h

/-- **Marking one price is marking the book iff nothing else would move**: every other
    position admits the price it is at, and rests there. -/
theorem markChanged_sameMarks_iff {one : PortfolioState}
    (hstanding : ∀ asset q, p.positions.get? asset = some q → q.Standing)
    (hmarked : ∀ asset q price, p.positions.get? asset = some q → asset ∉ p.pendingMarks →
      changed ≠ some asset → prices.get? asset = some price → q.marketPrice = price)
    (h : markChanged p prices timestamp changed = .ok one) :
    (∃ all, updateMarketPrices p prices timestamp = .ok all ∧ SameMarks one all) ↔
      ∀ asset q price, p.positions.get? asset = some q → asset ∉ p.pendingMarks →
        changed ≠ some asset → prices.get? asset = some price →
        (q.economics.getD cashEquity).admitsPrice price = true ∧ q.Rests price := by
  rw [markChanged_eq] at h
  have hheld : ∀ e ∈ heldAmong p (markedAssets p changed), p.positions.get? e.1 = some e.2 :=
    fun e he => (mem_heldAmong.mp he).2
  have hentries : ∀ e ∈ p.positions.entries, p.positions.get? e.1 = some e.2 :=
    fun e he => (Dict.get?_eq_some _).mpr he
  have hother : ∀ {asset}, asset ∉ markedAssets p changed →
      asset ∉ p.pendingMarks ∧ changed ≠ some asset := by
    intro asset hnot
    rw [mem_markedAssets, not_or] at hnot
    exact hnot.symm
  constructor
  · rintro ⟨all, hall, hsame⟩ asset q price hq hpending hchanged hprice
    have hmarkable := marked_accepts.mp ⟨all, hall⟩ (asset, q) ((Dict.get?_eq_some _).mp hq)
    refine ⟨(hmarkable price hprice).1, ?_⟩
    obtain rfl := hmarked asset q price hq hpending hchanged hprice
    have hnot : asset ∉ markedAssets p changed := by
      rw [mem_markedAssets, not_or]
      exact ⟨hchanged, hpending⟩
    have hone : one.positions.get? asset = some q := by
      rcases marked_asset hheld h asset with ⟨hlisted, -⟩ | ⟨hposition, -⟩
      · obtain ⟨e, he, rfl⟩ := List.mem_map.mp hlisted
        exact absurd (mem_heldAmong.mp he).1 hnot
      · exact hposition.trans hq
    have hmark : all.positions.get? asset = some (q.settle q.marketPrice timestamp).1 := by
      rcases marked_asset hentries hall asset with
        ⟨-, q', price', hq', hprice', hposition⟩ | ⟨-, -, hlisted⟩
      · obtain rfl := Option.some.inj (hq.symm.trans hq')
        obtain rfl := Option.some.inj (hprice.symm.trans hprice')
        exact hposition
      · have hnone := hlisted (List.mem_map.mpr ⟨(asset, q), (Dict.get?_eq_some _).mp hq, rfl⟩)
        rw [hprice] at hnone
        cases hnone
    have hrel := hsame.positions asset
    rw [hone, hmark] at hrel
    cases hrel with
    | some hrel => exact ((hstanding asset q hq).same_iff timestamp).mp hrel
  · intro hrests
    have hmarkable : ∀ e ∈ p.positions.entries, Markable prices e := by
      intro e he
      by_cases hlisted : e.1 ∈ markedAssets p changed
      · exact marked_accepts.mp ⟨one, h⟩ e (mem_heldAmong.mpr ⟨hlisted, hentries e he⟩)
      · intro price hprice
        obtain ⟨hadmits, hrest⟩ := hrests e.1 e.2 price (hentries e he) (hother hlisted).1
          (hother hlisted).2 hprice
        exact ⟨hadmits, fun hne => absurd hrest.variation_eq hne⟩
    obtain ⟨all, hall⟩ : ∃ s', marked p p.positions.entries prices timestamp = .ok s' :=
      marked_accepts.mpr hmarkable
    -- what settles something is among what one price marks
    have hperm : ((heldAmong p (markedAssets p changed)).filter fun e =>
        variationOf prices e ≠ 0).Perm
        (p.positions.entries.filter fun e => variationOf prices e ≠ 0) := by
      have hnodup : (markedAssets p changed).Nodup := (SortedSet.sorted _).imp ne_of_lt
      refine (List.perm_ext_iff_of_nodup ((nodup_heldAmong hnodup).filter _)
        ((List.Nodup.of_map _ p.positions.nodup).filter _)).mpr fun e => ?_
      have hentry : e ∈ p.positions.entries ↔ p.positions.get? e.1 = some e.2 :=
        ⟨hentries e, (Dict.get?_eq_some _).mp⟩
      simp only [List.mem_filter, mem_heldAmong, hentry, decide_eq_true_eq]
      constructor
      · rintro ⟨⟨-, hq⟩, hne⟩
        exact ⟨hq, hne⟩
      · rintro ⟨hq, hne⟩
        refine ⟨⟨?_, hq⟩, hne⟩
        by_contra hlisted
        cases hprice : prices.get? e.1 with
        | none => simp [variationOf, hprice] at hne
        | some price =>
          have hrest := (hrests e.1 e.2 price hq (hother hlisted).1 (hother hlisted).2 hprice).2
          simp [variationOf, hprice, hrest.variation_eq] at hne
    obtain ⟨hcash, hrealized, hledger⟩ := (marked_settles h).same (marked_settles hall) hperm
    refine ⟨all, hall, fun asset => ?_, hcash, hrealized, hledger⟩
    have hunpriced : ∀ q price, p.positions.get? asset = some q → prices.get? asset = some price →
        (asset ∈ p.positions.entries.map Prod.fst → prices.get? asset = none) → False := by
      intro q price hq hprice hlisted
      have hnone := hlisted (List.mem_map.mpr ⟨(asset, q), (Dict.get?_eq_some _).mp hq, rfl⟩)
      rw [hprice] at hnone
      cases hnone
    rcases marked_asset hheld h asset with
      ⟨-, q, price, hq, hprice, hone⟩ | ⟨hone, -, hlisted⟩
    · rcases marked_asset hentries hall asset with
        ⟨-, q', price', hq', hprice', hmark⟩ | ⟨-, -, hlisted⟩
      · obtain rfl := Option.some.inj (hq.symm.trans hq')
        obtain rfl := Option.some.inj (hprice.symm.trans hprice')
        rw [hone, hmark]
        exact .some (.refl _)
      · exact (hunpriced q price hq hprice hlisted).elim
    · rcases marked_asset hentries hall asset with
        ⟨-, q, price, hq, hprice, hmark⟩ | ⟨hmark, -, -⟩
      · have hnot : asset ∉ markedAssets p changed := by
          intro hmem
          have hnone := hlisted (List.mem_map.mpr ⟨(asset, q), mem_heldAmong.mpr ⟨hmem, hq⟩, rfl⟩)
          rw [hprice] at hnone
          cases hnone
        obtain ⟨hpending, hchanged⟩ := hother hnot
        have hrest := (hrests asset q price hq hpending hchanged hprice).2
        obtain rfl := hmarked asset q price hq hpending hchanged hprice
        rw [hone, hmark, hq]
        exact .some (((hstanding asset q hq).same_iff timestamp).mpr hrest)
      · rw [hone, hmark]
        cases p.positions.get? asset with
        | none => exact .none
        | some q => exact .some (.refl q)

end

/-- Every position that no mark of `changed` reaches admits the price observed of it, and
    rests there. -/
def RestsBeside (s : PipelineState) (changed : Option String) : Prop :=
  ∀ asset q price, s.portfolio.positions.get? asset = some q → asset ∉ s.portfolio.pendingMarks →
    changed ≠ some asset → s.marketPrices.get? asset = some price →
    (q.economics.getD cashEquity).admitsPrice price = true ∧ q.Rests price

theorem observedAfter_get? (s : PipelineState) {update : Option (String × Decimal)} {asset : String}
    (h : update.map Prod.fst ≠ some asset) :
    (s.observedAfter update).get? asset = s.marketPrices.get? asset := by
  cases update with
  | none => rfl
  | some u =>
    have hne : asset ≠ u.1 := fun he => h (by simp [he])
    exact Dict.get?_set_of_ne _ _ hne

/-- **Marking one price in a run**: a position that awaits no mark is at the price observed
    of it, and the event's one mark is every mark of the book iff the other positions rest
    at their prices; what refuses the one refuses the other. -/
theorem mark_one_marks_all (c : RunConfig) (budget : CapitalBudget) (account : Account)
    (s : RoutingState) (h : Reached c (fun _ _ => True) budget account s) :
    (∀ asset q price, s.pipeline.portfolio.positions.get? asset = some q →
      asset ∉ s.pipeline.portfolio.pendingMarks → s.pipeline.marketPrices.get? asset = some price →
      q.marketPrice = price) ∧
    ∀ update timestamp,
      (∀ one, markChanged s.pipeline.portfolio (s.pipeline.observedAfter update) timestamp
          (update.map Prod.fst) = .ok one →
        ((∃ all, updateMarketPrices s.pipeline.portfolio (s.pipeline.observedAfter update) timestamp =
            .ok all ∧ SameMarks one all) ↔
          RestsBeside s.pipeline (update.map Prod.fst))) ∧
      ∀ refused, markChanged s.pipeline.portfolio (s.pipeline.observedAfter update) timestamp
          (update.map Prod.fst) = .error refused →
        ¬ ∃ all, updateMarketPrices s.pipeline.portfolio (s.pipeline.observedAfter update)
          timestamp = .ok all := by
  have hmarked : ∀ asset q price, s.pipeline.portfolio.positions.get? asset = some q →
      asset ∉ s.pipeline.portfolio.pendingMarks →
      s.pipeline.marketPrices.get? asset = some price → q.marketPrice = price := by
    intro asset q price hq hpending hprice
    exact (reached_marked h asset).marked q price hq (decide_eq_false hpending) hprice
  refine ⟨hmarked, fun update timestamp => ⟨fun one hone => ?_, fun _ => markChanged_refused⟩⟩
  have hstanding : ∀ asset q, s.pipeline.portfolio.positions.get? asset = some q → q.Standing :=
    fun asset q hq => (reached_marked h asset).standing q hq
  rw [markChanged_sameMarks_iff hstanding ?_ hone]
  · constructor
    · intro hrests asset q price hq hpending hchanged hprice
      exact hrests asset q price hq hpending hchanged
        ((observedAfter_get? _ hchanged).trans hprice)
    · intro hrests asset q price hq hpending hchanged hprice
      exact hrests asset q price hq hpending hchanged
        ((observedAfter_get? _ hchanged).symm.trans hprice)
  · intro asset q price hq hpending hchanged hprice
    exact hmarked asset q price hq hpending ((observedAfter_get? _ hchanged).symm.trans hprice)

def plainFuture : ContractRecord where
  assetId := "F"
  symbol := "F"
  assetType := .future
  currency := "USD"
  economics := some { cashEquity with settlement := .futuresVariation }

def futuresRun : RunConfig where
  currency := "USD"
  instruments := some (registryOf [plainFuture])

def futuresMarkedRun (quantity price : Decimal) : List RunCall :=
  [.cash (.deposit 1000 "USD" 0)] ++ tradeCalls "A" "F" quantity price 1 ++
    [.market (some ("F", price)) 2]

/-- Three futures at a whole price rest there, and the mark of another asset marks them. -/
theorem mark_one_marks_all_whole : ∃ s one all,
    runOf futuresRun (futuresMarkedRun 3 2) = .ok s ∧
    s.pipeline.portfolio.positions.keys = ["F"] ∧
    markChanged s.pipeline.portfolio (s.pipeline.observedAfter (some ("X", 1))) 4 (some "X") =
      .ok one ∧
    updateMarketPrices s.pipeline.portfolio (s.pipeline.observedAfter (some ("X", 1))) 4 = .ok all ∧
    SameMarks one all := by
  obtain ⟨s, hs, hkeys, hone, hrests⟩ := exists_ok_of (x := runOf futuresRun (futuresMarkedRun 3 2))
    (fun s => s.pipeline.portfolio.positions.keys = ["F"] ∧
      (markChanged s.pipeline.portfolio (s.pipeline.observedAfter (some ("X", 1))) 4
        (some "X")).toOption.any (fun _ => decide True) = true ∧
      ∀ e ∈ s.pipeline.portfolio.positions.entries, ∀ price ∈ s.pipeline.marketPrices.get? e.1,
        (e.2.economics.getD cashEquity).admitsPrice price = true ∧ e.2.variation price = 0 ∧
          e.2.basis = e.2.money (e.2.scaled (multiply |e.2.quantity| price))) (by decide +kernel)
  obtain ⟨one, hone, -⟩ := exists_ok_of _ hone
  have hbeside : RestsBeside s.pipeline (some "X") := by
    intro asset q price hq _ _ hprice
    obtain ⟨hadmits, hrest⟩ := hrests (asset, q) ((Dict.get?_eq_some _).mp hq) price hprice
    exact ⟨hadmits, Or.inr hrest⟩
  obtain ⟨all, hall, hsame⟩ := (((mark_one_marks_all futuresRun _ _ s
    (Runs.of_foldlM hs fun _ _ _ => trivial)).2 (some ("X", 1)) 4).1 one hone).mpr hbeside
  exact ⟨s, one, all, hs, hkeys, hone, hall, hsame⟩

/-- **Three futures at 0.335 settle again at their own mark**: their notional ends in half a
    cent, no average cost is a third of what it is rounded to, and every mark of the book
    pays a cent more. -/
theorem three_futures_settle_again : ∃ s one all,
    runOf futuresRun (futuresMarkedRun 3 0.335) = .ok s ∧
    s.pipeline.portfolio.pendingMarks.members = [] ∧
    markChanged s.pipeline.portfolio (s.pipeline.observedAfter (some ("X", 1))) 4 (some "X") =
      .ok one ∧
    updateMarketPrices s.pipeline.portfolio (s.pipeline.observedAfter (some ("X", 1))) 4 = .ok all ∧
    one.cash.balance "USD" = 1000.01 ∧ all.cash.balance "USD" = 1000.02 ∧ ¬ SameMarks one all := by
  obtain ⟨s, hs, hpending, hone, hall⟩ := exists_ok_of
    (x := runOf futuresRun (futuresMarkedRun 3 0.335))
    (fun s => s.pipeline.portfolio.pendingMarks.members = [] ∧
      (markChanged s.pipeline.portfolio (s.pipeline.observedAfter (some ("X", 1))) 4
        (some "X")).toOption.any (fun one => decide (one.cash.balance "USD" = 1000.01)) = true ∧
      (updateMarketPrices s.pipeline.portfolio (s.pipeline.observedAfter (some ("X", 1)))
        4).toOption.any (fun all => decide (all.cash.balance "USD" = 1000.02)) = true)
    (by decide +kernel)
  obtain ⟨one, hone, hbefore⟩ := exists_ok_of _ hone
  obtain ⟨all, hall, hafter⟩ := exists_ok_of _ hall
  refine ⟨s, one, all, hs, hpending, hone, hall, hbefore, hafter, fun hsame => ?_⟩
  have hcash := hsame.cash "USD"
  rw [hbefore, hafter] at hcash
  norm_num at hcash

end AlphaLab
