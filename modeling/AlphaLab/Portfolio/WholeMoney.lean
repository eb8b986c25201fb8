/-
  Money is a whole number of minor units.

  * `WholeIn units c x`: `c` has a minor unit and `x` is a whole number of it.
  * `WholeBook s`: every balance, every accumulated result, every position's
    basis and P&L, and every exchange's ledger amount is whole.
  * One lemma an operation: what it produces is whole, because the operation
    that computed it rounded it.  An exchange needs its legs' bases whole in the
    unit of the holdings they join (`JoinsWhole`), an amended delivery the
    basis it writes off (`WritesOffWhole`): nothing rounds these.
-/
import AlphaLab.Portfolio.AmendmentAccounting

namespace AlphaLab

open Fallible

/-! ## Whole amounts -/

/-- `amount` is a whole number of `currency`'s minor unit. -/
def WholeIn (units : CurrencyUnits) (currency : String) (amount : Decimal) : Prop :=
  ∃ n ∈ units.minorUnits currency, Whole n amount

instance (units : CurrencyUnits) (currency : String) (amount : Decimal) :
    Decidable (WholeIn units currency amount) :=
  decidable_of_iff ((units.minorUnits currency).any fun n => Whole n amount) <| by
    simp [WholeIn, Option.any_eq_true]

variable {amount : Decimal} {p : Position}

section
variable {units : CurrencyUnits} {currency : String} {x y : Decimal}

theorem WholeIn.zero (h : WholeIn units currency x) : WholeIn units currency 0 := by
  obtain ⟨n, hn, -⟩ := h
  exact ⟨n, hn, whole_zero n⟩

theorem WholeIn.neg (h : WholeIn units currency x) : WholeIn units currency (-x) := by
  obtain ⟨n, hn, hx⟩ := h
  exact ⟨n, hn, hx.neg⟩

theorem WholeIn.add (hx : WholeIn units currency x) (hy : WholeIn units currency y) :
    WholeIn units currency (x + y) := by
  obtain ⟨n, hn, hx⟩ := hx
  obtain ⟨m, hm, hy⟩ := hy
  obtain rfl : n = m := Option.some.inj (hn.symm.trans hm)
  exact ⟨n, hn, hx.add hy⟩

theorem WholeIn.sub (hx : WholeIn units currency x) (hy : WholeIn units currency y) :
    WholeIn units currency (x - y) := by
  rw [sub_eq_add_neg]
  exact hx.add hy.neg

theorem WholeIn.inContext (h : WholeIn units currency x) :
    WholeIn units currency (AlphaLab.inContext x) := by
  obtain ⟨n, hn, hx⟩ := h
  exact ⟨n, hn, whole_inContext hx⟩

theorem wholeIn_money (h : money units amount currency = .ok x) : WholeIn units currency x := by
  obtain ⟨n, hn, rfl⟩ := money_ok.mp h
  exact ⟨n, hn, whole_quantize n amount⟩

theorem WholeIn.sum {l : List Decimal} (hzero : WholeIn units currency 0)
    (h : ∀ x ∈ l, WholeIn units currency x) : WholeIn units currency l.sum := by
  induction l with
  | nil => exact hzero
  | cons x l ih =>
    rw [List.sum_cons]
    exact (h x (by simp)).add (ih fun y hy => h y (by simp [hy]))

theorem BookedAt.wholeIn (h : BookedAt units p) :
    WholeIn units p.currency x ↔ Whole p.decimals x := by
  constructor
  · rintro ⟨n, hn, hx⟩
    obtain rfl : p.decimals = n := Option.some.inj (h.decimals.symm.trans hn)
    exact hx
  · exact fun hx => ⟨p.decimals, h.decimals, hx⟩

end

/-! ## Whole books -/

def AllWhole (units : CurrencyUnits) (d : Dict String Decimal) : Prop :=
  ∀ c x, d.get? c = some x → WholeIn units c x

def WholePosition (units : CurrencyUnits) (p : Position) : Prop :=
  WholeIn units p.currency p.basis ∧ WholeIn units p.currency p.realizedPnl

def WholePositions (units : CurrencyUnits) (positions : Dict String Position) : Prop :=
  ∀ asset p, positions.get? asset = some p → WholePosition units p

def WholeLedger (units : CurrencyUnits) (ledger : List Transaction) : Prop :=
  ∀ t ∈ ledger, t.type = .exchange → WholeIn units t.currency t.quantity

/-- Every amount of money of a state is a whole number of minor units. -/
structure WholeBook (s : PortfolioState) : Prop where
  cash : AllWhole s.account.currencyUnits s.cash.balances
  realized : AllWhole s.account.currencyUnits s.realizedPnl.amounts
  commission : AllWhole s.account.currencyUnits s.commissionPaid.amounts
  positions : WholePositions s.account.currencyUnits s.positions
  ledger : WholeLedger s.account.currencyUnits s.ledger

section
variable {units : CurrencyUnits}

theorem AllWhole.add {d : Dict String Decimal} (h : AllWhole units d) {currency : String}
    {x : Decimal} (hx : WholeIn units currency x) :
    AllWhole units (d.set currency ((d.get? currency).getD 0 + x)) := by
  intro c y hy
  by_cases hc : c = currency
  · subst hc
    rw [Dict.get?_set_self, Option.some.injEq] at hy
    subst hy
    cases hd : d.get? c with
    | none => simpa using hx
    | some z => exact (h c z hd).add hx
  · rw [Dict.get?_set_of_ne _ _ hc] at hy
    exact h c y hy

variable {cash : CashLedger}

theorem AllWhole.settle (h : AllWhole units cash.balances) {currency : String} {x : Decimal}
    (hx : WholeIn units currency x) :
    AllWhole units (cash.settle x currency).balances :=
  h.add hx

theorem AllWhole.withdraw {cash cash' : CashLedger} (h : AllWhole units cash.balances)
    {currency : String} {x : Decimal} (hx : WholeIn units currency x)
    (hw : cash.withdraw x currency = .ok cash') : AllWhole units cash'.balances := by
  simp only [CashLedger.withdraw, bind_ok, require_ok, pure_ok] at hw
  obtain ⟨-, -, rfl⟩ := hw
  simp only [CashLedger.balance, sub_eq_add_neg]
  exact h.add hx.neg

theorem AllWhole.accrue {a b : CurrencyAmounts} (h : AllWhole units a.amounts) {currency : String}
    {x : Decimal} (hx : WholeIn units currency x) (hadd : a.add x currency = .ok b) :
    AllWhole units b.amounts := by
  simp only [CurrencyAmounts.add, bind_ok, require_ok, pure_ok] at hadd
  obtain ⟨-, -, rfl⟩ := hadd
  exact h.add hx

variable {positions : Dict String Position}

theorem WholePositions.set (h : WholePositions units positions) (hp : WholePosition units p)
    (asset : String) : WholePositions units (positions.set asset p) := by
  intro a q hq
  by_cases ha : a = asset
  · subst ha
    rw [Dict.get?_set_self, Option.some.injEq] at hq
    exact hq ▸ hp
  · rw [Dict.get?_set_of_ne _ _ ha] at hq
    exact h a q hq

theorem WholePositions.delete (h : WholePositions units positions) (asset : String) :
    WholePositions units (positions.delete asset) := by
  intro a q hq
  rw [Dict.get?_delete] at hq
  split_ifs at hq
  exact h a q hq

theorem wholePosition_rebasedAt {b r : Decimal} (hb : WholeIn units p.currency b)
    (hr : WholeIn units p.currency r) (quantity price : Decimal) (timestamp : Instant)
    (openedAt : Option Instant) :
    WholePosition units (p.rebasedAt quantity b r price timestamp openedAt) := by
  rw [WholePosition, Position.rebasedAt_basis, Position.rebasedAt_realizedPnl]
  exact ⟨hb, hr⟩

variable {ledger : List Transaction} {t : Transaction}

theorem WholeLedger.append (h : WholeLedger units ledger)
    (ht : t.type = .exchange → WholeIn units t.currency t.quantity) :
    WholeLedger units (ledger ++ [t]) := by
  intro u hu hex
  rcases List.mem_append.mp hu with hu | hu
  · exact h u hu hex
  · rw [List.mem_singleton.mp hu] at hex ⊢
    exact ht hex

theorem WholeLedger.append_other (h : WholeLedger units ledger) (ht : t.type ≠ .exchange) :
    WholeLedger units (ledger ++ [t]) :=
  h.append fun hex => absurd hex ht

end

variable {s s' : PortfolioState}

variable {timestamp : Instant}

theorem applyDeposit_whole {currency : String}
    (h : applyDeposit s amount currency timestamp = .ok s') (hs : WholeBook s) : WholeBook s' := by
  obtain ⟨m, hm, rfl⟩ := applyDeposit_ok h
  exact { hs with
    cash := hs.cash.settle (wholeIn_money hm)
    ledger := hs.ledger.append_other (by simp) }

theorem applyWithdrawal_whole {currency : String}
    (h : applyWithdrawal s amount currency timestamp = .ok s') (hs : WholeBook s) :
    WholeBook s' := by
  obtain ⟨m, cash, hm, hcash, rfl⟩ := applyWithdrawal_ok h
  exact { hs with
    cash := hs.cash.withdraw (wholeIn_money hm) hcash
    ledger := hs.ledger.append_other (by simp) }

theorem convertCash_whole {fromCurrency toCurrency : String} {rates : FxRates} {financed : Bool}
    {conversion : FxConversion} (h : convertCash s amount fromCurrency toCurrency rates timestamp
      financed = .ok (s', conversion)) (hs : WholeBook s) : WholeBook s' := by
  obtain ⟨m, cash, hm, hconv, hcash, rfl⟩ := convertCash_ok h
  obtain ⟨x, hx⟩ := FxRates.convert_ok hconv
  have hdebit : AllWhole s.account.currencyUnits cash.balances := by
    unfold debit at hcash
    split_ifs at hcash
    · rw [← pure_ok.mp hcash]
      exact hs.cash.settle (wholeIn_money hm).neg
    · exact hs.cash.withdraw (wholeIn_money hm) hcash
  exact { hs with
    cash := hdebit.settle (wholeIn_money hx)
    ledger := (hs.ledger.append_other (by simp)).append_other (by simp) }

theorem applyCashFlow_whole {flow : CashFlow} (h : applyCashFlow s flow timestamp = .ok s')
    (hs : WholeBook s) : WholeBook s' := by
  obtain ⟨m, realized, hm, hreal, rfl⟩ := applyCashFlow_ok h
  have hkind : flow.kind.transactionType ≠ .exchange := by
    cases flow.kind <;> simp [CashFlowKind.transactionType]
  exact { hs with
    cash := hs.cash.settle (wholeIn_money hm)
    realized := hs.realized.accrue (wholeIn_money hm) hreal
    ledger := hs.ledger.append_other hkind }

variable {f : Fill}

variable {pos : Position}

theorem fillPosition_whole (h : fillPosition s f = .ok pos) (hs : WholeBook s) :
    WholePosition s.account.currencyUnits pos := by
  unfold fillPosition at h
  cases hget : s.positions.get? f.assetId with
  | some held =>
    rw [hget] at h
    exact pure_ok.mp h ▸ hs.positions _ _ hget
  | none =>
    rw [hget] at h
    obtain ⟨-, -, -, -, hreal, hbasis, hbooked⟩ := flatPosition_terms (orRefuse_ok.mp h)
    rw [WholePosition, hbooked.wholeIn, hbooked.wholeIn, hreal, Position.basis, hbasis,
      Option.getD_none]
    exact ⟨pos.whole_money _, whole_zero _⟩

theorem fillCash_whole {units : CurrencyUnits} {cash cash' : CashLedger} {impact : Decimal}
    (h : fillCash cash pos f impact = .ok cash') (hcash : AllWhole units cash.balances)
    (himpact : WholeIn units f.currency impact) : AllWhole units cash'.balances := by
  unfold fillCash at h
  split_ifs at h
  · rw [← pure_ok.mp h]
    exact hcash.settle himpact
  · rw [← pure_ok.mp h]
    exact hcash.settle himpact
  · exact hcash.withdraw himpact.neg h
  · exact pure_ok.mp h ▸ hcash

theorem applyFill_whole (h : applyFill s f = .ok s') (hs : WholeBook s)
    (hwell : WellBooked s.account.currencyUnits s.positions) : WholeBook s' := by
  obtain ⟨hq, commission, pos, value, cash, realized, commissions, newPos, pnl, hcomm, hpos, hcur,
    hvalue, hfill, hcash, hreal, hcomms, rfl⟩ := applyFill_ok h
  obtain ⟨-, hbooked, -⟩ := fillPosition_spec hpos hwell
  obtain ⟨hbasis, hpnl⟩ := fillPosition_whole hpos hs
  obtain ⟨b, r, o, heq, hbooks⟩ := pos.applyFill_books f.price f.timestamp hq
  obtain ⟨rfl, rfl⟩ := Prod.mk.inj (hfill.symm.trans heq)
  obtain ⟨hb, hr⟩ := hbooks.whole (hbooked.wholeIn.mp hbasis)
  rw [← hbooked.wholeIn] at hb hr
  have hr' : WholeIn s.account.currencyUnits f.currency pnl := hcur ▸ hr
  have hcomm' := wholeIn_money hcomm
  have hval : WholeIn s.account.currencyUnits f.currency value := by
    rw [tradeValue_ok hvalue hbooked hcur]
    split_ifs
    · rw [← hcur, hbooked.wholeIn]
      exact pos.whole_money _
    · exact hr'.zero
  have himpact : WholeIn s.account.currencyUnits f.currency
      (cashImpact f.quantity value commission) := by
    unfold cashImpact
    split_ifs
    exacts [hval.sub hcomm', hval.neg.sub hcomm']
  have hsettled : AllWhole s.account.currencyUnits
      (if ¬ pos.paysNotional ∧ pnl ≠ 0 then s.cash.settle pnl f.currency else s.cash).balances := by
    split_ifs
    exacts [hs.cash.settle hr', hs.cash]
  have hnew := wholePosition_rebasedAt hb (hpnl.add hr) (pos.quantity + f.quantity) f.price
    f.timestamp o
  exact {
    cash := fillCash_whole hcash hsettled himpact
    realized := hs.realized.accrue hr' hreal
    commission := hs.commission.accrue hcomm' hcomms
    positions := by
      dsimp only
      split_ifs
      exacts [hs.positions.delete _, hs.positions.set hnew _]
    ledger := hs.ledger.append_other (by simp only [fillTransaction]; split_ifs <;> simp) }

structure Marking.IsWhole (m : Marking) (units : CurrencyUnits) : Prop where
  positions : WholePositions units m.positions
  cash : AllWhole units m.cash.balances
  realized : AllWhole units m.realizedPnl.amounts
  ledger : WholeLedger units m.ledger

variable {prices : Dict String Decimal}

theorem markOne_whole {m m' : Marking} {held : String × Position}
    (hbooked : BookedAt s.account.currencyUnits held.2)
    (hheld : WholePosition s.account.currencyUnits held.2)
    (h : markOne s prices timestamp m held = .ok m') (hm : m.IsWhole s.account.currencyUnits) :
    m'.IsWhole s.account.currencyUnits := by
  obtain ⟨asset, p⟩ := held
  simp only at hbooked hheld
  simp only [markOne] at h
  cases hprice : prices.get? asset with
  | none =>
    rw [hprice] at h
    exact pure_ok.mp h ▸ hm
  | some price =>
    simp only [hprice, bind_ok, require_ok] at h
    obtain ⟨-, -, h⟩ := h
    have hamount : WholeIn s.account.currencyUnits p.currency (p.settle price timestamp).2 :=
      hbooked.wholeIn.mpr (p.settle_amount_whole price timestamp)
    have hafter : WholePosition s.account.currencyUnits (p.settle price timestamp).1 := by
      simp only [Position.settle] at hamount ⊢
      split_ifs at hamount ⊢
      · exact hheld
      · exact wholePosition_rebasedAt (hbooked.wholeIn.mpr (p.whole_money _))
          (hheld.2.add hamount) _ _ _ _
    split_ifs at h
    · rw [← pure_ok.mp h]
      exact { hm with positions := hm.positions.set hafter asset }
    · simp only [bind_ok, pure_ok] at h
      obtain ⟨realized, hreal, rfl⟩ := h
      exact {
        positions := hm.positions.set hafter asset
        cash := hm.cash.settle hamount
        realized := hm.realized.accrue hamount hreal
        ledger := hm.ledger.append_other (by simp [variationTransaction]) }

theorem marked_whole {held : List (String × Position)} (h : marked s held prices timestamp = .ok s')
    (hheld : ∀ e ∈ held, s.positions.get? e.1 = some e.2) (hs : WholeBook s)
    (hwell : WellBooked s.account.currencyUnits s.positions) : WholeBook s' := by
  obtain ⟨m, hm, hs'⟩ := marked_ok h
  have hwhole : m.IsWhole s.account.currencyUnits := by
    refine foldlM_invariant (Marking.IsWhole · s.account.currencyUnits) hm
      ⟨hs.positions, hs.cash, hs.realized, hs.ledger⟩ ?_
    intro e he m₁ m₂ hstep hm₁
    obtain ⟨-, hbooked⟩ := hwell _ _ (hheld e he)
    exact markOne_whole hbooked (hs.positions _ _ (hheld e he)) hstep hm₁
  rcases hs' with rfl | rfl
  · exact hs
  · exact ⟨hwhole.cash, hwhole.realized, hs.commission, hwhole.positions, hwhole.ledger⟩

theorem applySplit_whole {split : Split} (h : applySplit s split timestamp = .ok s')
    (hs : WholeBook s) : WholeBook s' := by
  obtain ⟨p, hp, rfl⟩ := applySplit_ok h
  obtain ⟨hbasis, hpnl⟩ := hs.positions _ _ hp
  exact { hs with positions := hs.positions.set (wholePosition_rebasedAt hbasis hpnl _ _ _ _) _ }

/-! ## Exchanges -/

variable {leg : ExchangedHolding} {held : Position}

section
variable {units : CurrencyUnits}

def LegJoinsWhole (units : CurrencyUnits) (positions : Dict String Position)
    (leg : ExchangedHolding) : Prop :=
  ∀ e ∈ positions.get? leg.assetId, e.quantity ≠ 0 →
    WholeIn units e.currency (moneyOf units leg.basis leg.currency)

theorem receiveLeg_whole {positions positions' : Dict String Position}
    (h : receiveLeg units timestamp positions leg = .ok positions')
    (hjoins : LegJoinsWhole units positions leg) (hp : WholePositions units positions) :
    WholePositions units positions' := by
  simp only [receiveLeg, bind_ok] at h
  obtain ⟨basis, hbasis, h⟩ := h
  have hm := moneyOf_eq hbasis
  cases hex : (positions.get? leg.assetId).filter (·.quantity ≠ 0) with
  | some e =>
    simp only [hex, bind_ok, require_ok, pure_ok] at h
    obtain ⟨-, -, rfl⟩ := h
    obtain ⟨hget, hne⟩ := Option.filter_eq_some_iff.mp hex
    obtain ⟨hb, hr⟩ := hp _ _ hget
    have hadd : WholeIn units e.currency basis := hm ▸ hjoins e hget (by simpa using hne)
    exact hp.set (wholePosition_rebasedAt (hb.add hadd) hr _ _ _ _) _
  | none =>
    simp only [hex, bind_ok, orRefuse_ok, pure_ok] at h
    obtain ⟨flat, hflat, rfl⟩ := h
    obtain ⟨-, hcur, -, -, -, -, -⟩ := flatPosition_terms hflat
    have hb : WholeIn units flat.currency basis := hcur ▸ wholeIn_money hbasis
    exact hp.set (wholePosition_rebasedAt hb hb.zero _ _ _ _) _

theorem receiveLegs_whole :
    ∀ {legs : List ExchangedHolding} {positions positions' : Dict String Position},
      legs.foldlM (receiveLeg units timestamp) positions = .ok positions' →
      (∀ leg ∈ legs, leg.quantity ≠ 0) → (legs.map (·.assetId)).Nodup →
      (∀ leg ∈ legs, LegJoinsWhole units positions leg) → WholePositions units positions →
      WholePositions units positions'
  | [], positions, positions', h, _, _, _, hp => by
    rw [List.foldlM_nil, pure_ok] at h
    exact h ▸ hp
  | leg :: legs, positions, positions', h, hq, hnd, hjoins, hp => by
    rw [List.foldlM_cons, bind_ok] at h
    obtain ⟨mid, hmid, h⟩ := h
    rw [List.map_cons, List.nodup_cons] at hnd
    obtain ⟨hget, -, -⟩ := receiveLeg_spec hmid (hq leg (by simp))
    have hp' := receiveLeg_whole hmid (hjoins leg (by simp)) hp
    refine receiveLegs_whole h (fun l hl => hq l (by simp [hl])) hnd.2 ?_ hp'
    -- what the later legs join is not what the first one did
    intro l hl e he
    have hne : l.assetId ≠ leg.assetId := fun heq => hnd.1 (heq ▸ List.mem_map_of_mem hl)
    rw [hget _ hne] at he
    exact hjoins l (by simp [hl]) e he

theorem exchangedHolding_whole {x : ExchangeBooking} {positions positions' : Dict String Position}
    (h : exchangedHolding units x held positions = .ok positions')
    (hheld : WholePosition units held) (hkept : WholeIn units held.currency (x.kept.getD (0, 0)).2)
    (hp : WholePositions units positions) : WholePositions units positions' := by
  obtain ⟨hb, hr⟩ := hheld
  unfold exchangedHolding at h
  cases hret : x.retainedBasis with
  | none =>
    simp only [hret] at h
    split_ifs at h
    · rw [← pure_ok.mp h]
      exact hp.delete _
    · rw [← pure_ok.mp h]
      exact hp.set (wholePosition_rebasedAt (hkept.add hkept.zero) hr _ _ _ _) _
  | some retained =>
    simp only [hret, bind_ok, pure_ok] at h
    obtain ⟨m, hm, rfl⟩ := h
    exact hp.set (wholePosition_rebasedAt (hkept.add (wholeIn_money hm)) hr _ _ _ _) _

end

structure Consideration.IsWhole (m : Consideration) (units : CurrencyUnits) : Prop where
  cash : AllWhole units m.cash.balances
  ledger : WholeLedger units m.ledger

theorem payOne_whole {x : ExchangeBooking} {m m' : Consideration} {entry : String × Decimal}
    (h : payOne s x m entry = .ok m') (hm : m.IsWhole s.account.currencyUnits) :
    m'.IsWhole s.account.currencyUnits := by
  obtain ⟨currency, amount⟩ := entry
  simp only [payOne, bind_ok] at h
  obtain ⟨a, ha, h⟩ := h
  have hwhole := wholeIn_money ha
  split_ifs at h
  · exact pure_ok.mp h ▸ hm
  · rw [← pure_ok.mp h]
    exact ⟨hm.cash.settle hwhole, hm.ledger.append fun _ => hwhole⟩

theorem deliverOne_whole {x : ExchangeBooking} {m m' : Consideration}
    (h : deliverOne s x m leg = .ok m') (hm : m.IsWhole s.account.currencyUnits) :
    m'.IsWhole s.account.currencyUnits := by
  simp only [deliverOne] at h
  cases hp : x.planned leg with
  | none =>
    rw [hp] at h
    exact pure_ok.mp h ▸ hm
  | some planned =>
    simp only [hp, bind_ok, pure_ok] at h
    obtain ⟨basis, hbasis, rfl⟩ := h
    exact ⟨hm.cash, hm.ledger.append fun _ => (wholeIn_money hbasis).zero⟩

/-- **An exchange books whole money**, where what its legs join takes theirs. -/
theorem applyExchange_whole {x : ExchangeBooking} (h : applyExchange s x = .ok s')
    (hget : s.positions.get? x.assetId = some held) (hq : ∀ leg ∈ x.received, leg.quantity ≠ 0)
    (hnd : (x.received.map (·.assetId)).Nodup)
    (hjoins : ∀ leg ∈ x.received, LegJoinsWhole s.account.currencyUnits s.positions leg)
    (hkept : WholeIn s.account.currencyUnits held.currency (x.kept.getD (0, 0)).2)
    (hs : WholeBook s) : WholeBook s' := by
  obtain ⟨held', received, positions, paid, delivered, gain, realized, hget', hne, hrec, hpos,
    hpaid, hdel, hgain, hreal, rfl⟩ := applyExchange_ok h
  obtain rfl : held = held' := Option.some.inj (hget.symm.trans hget')
  have hreceived := receiveLegs_whole hrec hq hnd hjoins hs.positions
  have hcons : delivered.IsWhole s.account.currencyUnits := by
    refine foldlM_invariant (Consideration.IsWhole · s.account.currencyUnits) hdel ?_
      fun leg _ m m' hm hw => deliverOne_whole hm hw
    exact foldlM_invariant (Consideration.IsWhole · s.account.currencyUnits) hpaid
      ⟨hs.cash, hs.ledger⟩ fun e _ m m' hm hw => payOne_whole hm hw
  exact {
    cash := hcons.cash
    realized := by
      unfold realize at hreal
      split_ifs at hreal
      · exact pure_ok.mp hreal ▸ hs.realized
      · exact hs.realized.accrue (wholeIn_money hgain) hreal
    commission := hs.commission
    positions := exchangedHolding_whole hpos (hs.positions _ _ hget) hkept hreceived
    ledger := hcons.ledger }

/-! ## Amendments of a payment -/

structure Amended.IsWhole (m : Amended) (units : CurrencyUnits) : Prop where
  cash : AllWhole units m.cash.balances
  realized : AllWhole units m.realizedPnl.amounts
  ledger : WholeLedger units m.ledger

variable {a : PaymentAmendment} {m : Amended}

variable {chain : List Transaction} {owed : Decimal}

theorem writeOff_whole (h : writeOff s a chain owed = .ok m)
    (howed : WholeIn s.account.currencyUnits a.currency owed) (hs : WholeBook s) :
    m.IsWhole s.account.currencyUnits := by
  simp only [writeOff, bind_ok, pure_ok] at h
  obtain ⟨realized, hreal, rfl⟩ := h
  exact {
    cash := hs.cash.settle howed.neg
    realized := hs.realized.accrue howed.neg hreal
    ledger := hs.ledger.append fun _ => howed.neg }

theorem owePayment_whole {m m' : Amended} {currency : String} {perUnit : Decimal}
    {settles : Option Instant} (h : owePayment s a m amount currency perUnit settles = .ok m')
    (hamount : WholeIn s.account.currencyUnits currency amount)
    (hm : m.IsWhole s.account.currencyUnits) : m'.IsWhole s.account.currencyUnits := by
  simp only [owePayment, bind_ok, pure_ok] at h
  obtain ⟨realized, hreal, rfl⟩ := h
  exact {
    cash := hm.cash.settle hamount
    realized := hm.realized.accrue hamount hreal
    ledger := hm.ledger.append fun _ => hamount }

theorem changePayment_whole {waiting : List PendingSettlement}
    (h : changePayment s a chain owed waiting = .ok m)
    (howed : WholeIn s.account.currencyUnits a.currency owed) (hs : WholeBook s) :
    m.IsWhole s.account.currencyUnits := by
  unfold changePayment at h
  cases hchange : a.change with
  | delayed =>
    simp only [hchange, delayPayment, bind_ok, pure_ok] at h
    obtain ⟨paysAt, -, -, -, rfl⟩ := h
    exact ⟨hs.cash, hs.realized, hs.ledger.append fun _ => howed.zero⟩
  | failed =>
    rw [hchange] at h
    exact writeOff_whole h howed hs
  | reversed =>
    simp only [hchange, bind_ok] at h
    obtain ⟨-, -, h⟩ := h
    exact writeOff_whole h howed hs
  | corrected =>
    simp only [hchange, correctPayment, bind_ok] at h
    obtain ⟨units, -, perUnit, -, owedAfter, hafter, h⟩ := h
    exact owePayment_whole h ((wholeIn_money hafter).sub howed) ⟨hs.cash, hs.realized, hs.ledger⟩
  | replaced =>
    simp only [hchange, replacePayment, bind_ok] at h
    obtain ⟨units, -, perUnit, -, into, -, out, hout, replacement, hrep, h⟩ := h
    have hw := writeOff_whole hout howed hs
    exact owePayment_whole h (wholeIn_money hrep) ⟨hw.cash, hw.realized, hw.ledger⟩

theorem owed_whole {holding currency : String} {effectiveAt : Instant} (hs : WholeBook s)
    (hchain : paymentChain s.ledger holding effectiveAt currency ≠ []) :
    WholeIn s.account.currencyUnits currency
      ((paymentChain s.ledger holding effectiveAt currency).map (·.quantity)).sum := by
  have hall : ∀ t ∈ paymentChain s.ledger holding effectiveAt currency,
      WholeIn s.account.currencyUnits currency t.quantity := by
    intro t ht
    obtain ⟨hmem, hin⟩ := List.mem_filter.mp ht
    simp only [inPaymentChain, Bool.and_eq_true, decide_eq_true_eq] at hin
    obtain ⟨⟨hex, rfl⟩, -⟩ := hin
    exact hs.ledger t hmem hex
  obtain ⟨t, ht⟩ := List.exists_mem_of_ne_nil _ hchain
  refine WholeIn.sum (hall t ht).zero fun x hx => ?_
  obtain ⟨u, hu, rfl⟩ := List.mem_map.mp hx
  exact hall u hu

theorem amendPayment_whole (h : amendPayment s a = .ok s') (hs : WholeBook s) : WholeBook s' := by
  rcases amendPayment_ok h with rfl | ⟨hchain, m, hm, rfl⟩
  · exact hs
  · have hw := changePayment_whole hm (owed_whole hs hchain) hs
    exact ⟨hw.cash, hw.realized, hs.commission, hs.positions, hw.ledger⟩

/-- An amended delivery writes off a whole basis, in its own currency and in
    that of the units that remain. -/
def WritesOffWhole (s : PortfolioState) (a : DeliveryAmendment) : Prop :=
  ∀ d ∈ deliveryOf s a, writtenOff a d ≠ 0 →
    WholeIn s.account.currencyUnits d.original.currency (lostBasis a d) ∧
    ∀ p ∈ s.positions.get? a.assetId, p.quantity - writtenOff a d ≠ 0 →
      WholeIn s.account.currencyUnits p.currency (lostBasis a d)

instance (s : PortfolioState) (a : DeliveryAmendment) : Decidable (WritesOffWhole s a) :=
  inferInstanceAs (Decidable (∀ d ∈ deliveryOf s a, _))

theorem deliveryOf_original {a : DeliveryAmendment} {d : Delivery} (h : deliveryOf s a = some d) :
    d.original ∈ s.ledger ∧ d.original.type = .exchange := by
  simp only [deliveryOf, Option.map_eq_some_iff] at h
  obtain ⟨t, ht, rfl⟩ := h
  obtain ⟨hmem, hin⟩ := List.mem_filter.mp (List.mem_of_find?_eq_some ht)
  simp only [inDeliveryChain, Bool.and_eq_true, decide_eq_true_eq] at hin
  exact ⟨hmem, hin.1.1⟩

theorem writeOffUnits_whole {a : DeliveryAmendment} {w lost : Decimal} (hs : WholeBook s)
    (hlost : ∀ p ∈ s.positions.get? a.assetId, p.quantity - w ≠ 0 →
      WholeIn s.account.currencyUnits p.currency lost) :
    WholePositions s.account.currencyUnits (writeOffUnits s a w lost) := by
  unfold writeOffUnits
  cases hget : s.positions.get? a.assetId with
  | none => exact hs.positions
  | some p =>
    obtain ⟨hb, hr⟩ := hs.positions _ _ hget
    simp only
    split_ifs with hrem
    · exact hs.positions.delete _
    · exact hs.positions.set (wholePosition_rebasedAt (hb.sub (hlost p hget hrem)) hr _ _ _ _) _

theorem amendDelivery_whole {a : DeliveryAmendment} {parts : List (String × Decimal)}
    (h : amendDelivery s a = .ok (s', parts)) (hoff : WritesOffWhole s a) (hs : WholeBook s) :
    WholeBook s' := by
  rcases amendDelivery_ok h with ⟨-, rfl⟩ | ⟨d, ch, realized, hd, hch, hreal, rfl⟩
  · exact hs
  · obtain ⟨hw, extra, htx⟩ := changeDelivery_spec hch
    obtain ⟨hmem, hex⟩ := deliveryOf_original hd
    have hzero : WholeIn s.account.currencyUnits d.original.currency 0 := (hs.ledger _ hmem hex).zero
    have hlost := hoff d hd
    simp only [lostBasis, ← hw] at hlost
    exact {
      cash := hs.cash
      realized := by
        unfold realizeLost at hreal
        split_ifs at hreal with hnone
        · exact pure_ok.mp hreal ▸ hs.realized
        · exact hs.realized.accrue (hlost hnone).1.neg hreal
      commission := hs.commission
      positions := by
        dsimp only
        split_ifs with hnone
        · exact hs.positions
        · exact writeOffUnits_whole hs (hlost hnone).2
      ledger := by
        dsimp only
        rw [htx]
        exact hs.ledger.append fun _ => hzero }

end AlphaLab
