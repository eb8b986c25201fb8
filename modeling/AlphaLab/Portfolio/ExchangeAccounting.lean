/-
  What an exchange moves on the two sides of the accounting identity.

  `applyExchange_gap`: an exchange moves the gap by the consideration it books,
  the bases its legs land with and the exchanged holding's basis, less the P&L
  it realizes, each rounded on its own.  Nothing makes them cancel but the
  amounts themselves.
-/
import AlphaLab.Portfolio.Trading

namespace AlphaLab

open Fallible

variable {s s' : PortfolioState}

/-- `to_money`, nothing where the unit is unknown. -/
def moneyOf (units : CurrencyUnits) (amount : Decimal) (currency : String) : Decimal :=
  (toMoney units amount currency).getD 0

variable {units : CurrencyUnits}

theorem moneyOf_eq {amount m : Decimal} {currency : String}
    (h : money units amount currency = .ok m) : m = moneyOf units amount currency := by
  rw [money, orRefuse_ok] at h
  simp [moneyOf, h]

@[simp] theorem moneyOf_zero (units : CurrencyUnits) (currency : String) :
    moneyOf units 0 currency = 0 := by
  rw [moneyOf, toMoney]
  cases units.minorUnits currency <;> simp

/-! ## Legs -/

/-- The currency in whose fully paid holdings a leg's basis lands, if it does. -/
def landsIn (positions : Dict String Position) (leg : ExchangedHolding) : Option String :=
  match (positions.get? leg.assetId).filter (·.quantity ≠ 0) with
  | some existing => if existing.paysNotional then some existing.currency else none
  | none => if leg.economics.elim true (·.settlement.paysNotional) then some leg.currency else none

/-- The signed basis a leg adds to the holdings of `c`. -/
def legShift (units : CurrencyUnits) (positions : Dict String Position) (c : String)
    (leg : ExchangedHolding) : Decimal :=
  if landsIn positions leg = some c then
    Position.signed leg.quantity (moneyOf units leg.basis leg.currency)
  else 0

theorem signed_add_same {q r b d : Decimal} (hq : q ≠ 0) (hr : r ≠ 0)
    (hside : decide (0 < q) = decide (0 < r)) :
    Position.signed (q + r) (b + d) = Position.signed q b + Position.signed r d := by
  rcases hq.lt_or_gt with hq | hq <;> rcases hr.lt_or_gt with hr | hr
  · rw [Position.signed_of_neg hq, Position.signed_of_neg hr,
      Position.signed_of_neg (add_neg hq hr)]
    ring
  · simp [hq.not_gt, hr] at hside
  · simp [hr.not_gt, hq] at hside
  · rw [Position.signed_of_pos hq, Position.signed_of_pos hr,
      Position.signed_of_pos (add_pos hq hr)]

variable {positions positions' : Dict String Position} {leg : ExchangedHolding}

/-- What receiving a leg does: one position set, the bases moved by its shift,
    the books kept. -/
theorem receiveLeg_spec {timestamp : Instant}
    (h : receiveLeg units timestamp positions leg = .ok positions') (hq : leg.quantity ≠ 0) :
    (∀ a, a ≠ leg.assetId → positions'.get? a = positions.get? a) ∧
      (WellBooked units positions → WellBooked units positions') ∧
      ∀ c, (positions'.sum fun _ p => basisOf c p) =
        (positions.sum fun _ p => basisOf c p) + legShift units positions c leg := by
  simp only [receiveLeg, bind_ok] at h
  obtain ⟨basis, hbasis, h⟩ := h
  have hm := moneyOf_eq hbasis
  cases hex : (positions.get? leg.assetId).filter (·.quantity ≠ 0) with
  | some e =>
    simp only [hex, bind_ok, require_ok, pure_ok] at h
    obtain ⟨-, hside, rfl⟩ := h
    obtain ⟨hget, he⟩ := Option.filter_eq_some_iff.mp hex
    have he : e.quantity ≠ 0 := by simpa using he
    have hterms := e.rebasedAt_terms (e.quantity + leg.quantity) (e.basis + basis) e.realizedPnl
      e.marketPrice timestamp e.openedAt
    refine ⟨fun a ha => Dict.get?_set_of_ne _ _ ha,
      fun hwell => wellBooked_terms hwell hget hterms, fun c => ?_⟩
    rw [Dict.sum_set, basisOf_sumAt, hget, Option.map_some, Option.getD_some, Position.rebased,
      basisOf_terms hterms, legShift, landsIn, hex]
    simp only [Position.signedBasis, hterms.paysNotional, Position.rebasedAt_quantity,
      Position.rebasedAt_basis, signed_add_same he hq hside, ← hm]
    by_cases hc : c = e.currency
    · subst hc
      cases e.paysNotional
      · simp
      · simp only [if_true]
        ring
    · cases e.paysNotional <;> simp [hc, Ne.symm hc]
  | none =>
    simp only [hex, bind_ok, orRefuse_ok, pure_ok] at h
    obtain ⟨flat, hflat, rfl⟩ := h
    obtain ⟨hasset, hcur, hecon, -, -, -, hbooked⟩ := flatPosition_terms hflat
    have hterms := flat.rebasedAt_terms leg.quantity basis 0 leg.price timestamp (some timestamp)
    refine ⟨fun a ha => Dict.get?_set_of_ne _ _ ha,
      fun hwell => wellBooked_set hwell (hterms.1.trans hasset) (hbooked.of_terms hterms),
      fun c => ?_⟩
    -- a flat holding of the asset carries no basis
    have hold : ((positions.get? leg.assetId).map (basisOf c)).getD 0 = 0 := by
      cases hget : positions.get? leg.assetId with
      | none => rfl
      | some p =>
        have hp : p.quantity = 0 := by
          rw [hget] at hex
          simpa using hex
        simp [basisOf, Position.signedBasis, hp]
    have hpays : flat.paysNotional = leg.economics.elim true (·.settlement.paysNotional) := by
      rw [Position.paysNotional, hecon]
    have hcur' : (flat.rebasedAt leg.quantity basis 0 leg.price timestamp (some timestamp)).currency =
        leg.currency := hterms.2.1.trans hcur
    rw [Dict.sum_set, basisOf_sumAt, hold, sub_zero, legShift, landsIn, hex, basisOf, hcur']
    simp only [Position.signedBasis, hterms.paysNotional, hpays, Position.rebasedAt_quantity,
      Position.rebasedAt_basis, ← hm]
    cases leg.economics.elim true (·.settlement.paysNotional) <;> simp

theorem landsIn_congr (h : positions'.get? leg.assetId = positions.get? leg.assetId) :
    landsIn positions' leg = landsIn positions leg := by
  rw [landsIn, landsIn, h]

/-- Receiving legs of distinct assets moves the bases by each one's shift. -/
theorem receiveLegs_spec {timestamp : Instant} :
    ∀ {legs : List ExchangedHolding} {positions positions' : Dict String Position},
      legs.foldlM (receiveLeg units timestamp) positions = .ok positions' →
      (∀ leg ∈ legs, leg.quantity ≠ 0) → (legs.map (·.assetId)).Nodup →
      (∀ a, a ∉ legs.map (·.assetId) → positions'.get? a = positions.get? a) ∧
        (WellBooked units positions → WellBooked units positions') ∧
        ∀ c, (positions'.sum fun _ p => basisOf c p) =
          (positions.sum fun _ p => basisOf c p) + (legs.map (legShift units positions c)).sum
  | [], positions, positions', h, _, _ => by
    rw [List.foldlM_nil, pure_ok] at h
    subst h
    exact ⟨fun _ _ => rfl, id, fun c => by simp⟩
  | leg :: legs, positions, positions', h, hq, hnd => by
    rw [List.foldlM_cons, bind_ok] at h
    obtain ⟨mid, hmid, h⟩ := h
    rw [List.map_cons, List.nodup_cons] at hnd
    obtain ⟨hget, hwell, hsum⟩ := receiveLeg_spec hmid (hq leg (by simp))
    obtain ⟨hget', hwell', hsum'⟩ :=
      receiveLegs_spec h (fun l hl => hq l (by simp [hl])) hnd.2
    refine ⟨fun a ha => ?_, hwell' ∘ hwell, fun c => ?_⟩
    · rw [List.map_cons, List.mem_cons, not_or] at ha
      rw [hget' a ha.2, hget a ha.1]
    · -- the later legs land as if the first had not been received
      have hlater : legs.map (legShift units mid c) = legs.map (legShift units positions c) := by
        refine List.map_congr_left fun l hl => ?_
        have hne : l.assetId ≠ leg.assetId := fun he =>
          hnd.1 (he ▸ List.mem_map_of_mem hl)
        rw [legShift, legShift, landsIn_congr (hget _ hne)]
      rw [hsum' c, hsum c, hlater, List.map_cons, List.sum_cons, add_assoc]

/-- The signed basis the exchange leaves in the holding of `c`, less what it had. -/
def holdingShift (units : CurrencyUnits) (x : ExchangeBooking) (held : Position) (c : String) :
    Decimal :=
  if c = held.currency ∧ held.paysNotional = true then
    let (keptUnits, keptBasis) := x.kept.getD (0, 0)
    (match x.retainedBasis with
      | none => Position.signed keptUnits keptBasis
      | some retained =>
        Position.signed held.quantity (keptBasis + moneyOf units retained held.currency)) -
      Position.signed held.quantity held.basis
  else 0

variable {x : ExchangeBooking}

theorem exchangedHolding_spec {held : Position}
    (h : exchangedHolding units x held positions = .ok positions')
    (hheld : positions.get? x.assetId = some held) :
    (WellBooked units positions → WellBooked units positions') ∧ ∀ c, (positions'.sum fun _ p => basisOf c p) =
      (positions.sum fun _ p => basisOf c p) + holdingShift units x held c := by
  -- what setting the holding to `q` units at basis `b` does
  have hset : ∀ q b, (WellBooked units positions → WellBooked units (positions.set x.assetId
      (held.rebased q b held.realizedPnl held.marketPrice x.timestamp))) ∧ ∀ c,
      ((positions.set x.assetId (held.rebased q b held.realizedPnl held.marketPrice
        x.timestamp)).sum fun _ p => basisOf c p) = (positions.sum fun _ p => basisOf c p) +
        if c = held.currency ∧ held.paysNotional = true then
          Position.signed q b - Position.signed held.quantity held.basis else 0 := by
    intro q b
    have hterms := held.rebasedAt_terms q b held.realizedPnl held.marketPrice x.timestamp
      held.openedAt
    refine ⟨fun hwell => wellBooked_terms hwell hheld hterms, fun c => ?_⟩
    rw [Dict.sum_set, basisOf_sumAt, hheld, Option.map_some, Option.getD_some, Position.rebased,
      basisOf_terms hterms]
    simp only [Position.signedBasis, hterms.paysNotional, Position.rebasedAt_quantity,
      Position.rebasedAt_basis]
    by_cases hc : c = held.currency <;> cases held.paysNotional <;> simp [hc]
    ring
  unfold exchangedHolding at h
  unfold holdingShift
  cases hr : x.retainedBasis with
  | none =>
    simp only [hr] at h ⊢
    split_ifs at h with hkept
    · rw [← pure_ok.mp h]
      refine ⟨fun hwell => wellBooked_delete hwell _, fun c => ?_⟩
      rw [Dict.sum_delete, basisOf_sumAt, hheld, Option.map_some, Option.getD_some, hkept,
        Position.signed_zero, basisOf, Position.signedBasis]
      by_cases hc : c = held.currency
      · subst hc
        cases held.paysNotional <;> simp [sub_eq_add_neg]
      · cases held.paysNotional <;> simp [hc, Ne.symm hc]
    · rw [← pure_ok.mp h]
      simpa using hset (x.kept.getD (0, 0)).1 ((x.kept.getD (0, 0)).2 + 0)
  | some retained =>
    simp only [hr, bind_ok, pure_ok] at h ⊢
    obtain ⟨m, hm, rfl⟩ := h
    rw [← moneyOf_eq hm]
    exact hset _ _

theorem payOne_spec {m m' : Consideration} {entry : String × Decimal}
    (h : payOne s x m entry = .ok m') (c : String) :
    m'.cash.balance c = m.cash.balance c +
        (if c = entry.1 then moneyOf s.account.currencyUnits entry.2 entry.1 else 0) ∧
      netDeposits m'.ledger c = netDeposits m.ledger c := by
  obtain ⟨currency, amount⟩ := entry
  simp only [payOne, bind_ok] at h
  obtain ⟨a, ha, h⟩ := h
  have hm := moneyOf_eq ha
  split_ifs at h with hzero
  · rw [← pure_ok.mp h]
    simp [← hm, hzero]
  · rw [← pure_ok.mp h]
    refine ⟨by rw [CashLedger.balance_settle, hm], ?_⟩
    exact netDeposits_other _ _ (by simp [paymentTransaction]) (by simp [paymentTransaction])

theorem payAll_spec :
    ∀ {entries : List (String × Decimal)} {m m' : Consideration},
      entries.foldlM (payOne s x) m = .ok m' → ∀ c,
      m'.cash.balance c = m.cash.balance c + (entries.map fun e =>
        if c = e.1 then moneyOf s.account.currencyUnits e.2 e.1 else 0).sum ∧
      netDeposits m'.ledger c = netDeposits m.ledger c
  | [], m, m', h, c => by
    rw [List.foldlM_nil, pure_ok] at h
    simp [h]
  | e :: entries, m, m', h, c => by
    rw [List.foldlM_cons, bind_ok] at h
    obtain ⟨mid, hmid, h⟩ := h
    obtain ⟨hcash, hnet⟩ := payOne_spec hmid c
    obtain ⟨hcash', hnet'⟩ := payAll_spec h c
    rw [hcash', hcash, hnet', hnet, List.map_cons, List.sum_cons, add_assoc]
    exact ⟨rfl, rfl⟩

theorem deliverOne_spec {m m' : Consideration} (h : deliverOne s x m leg = .ok m') :
    m'.cash = m.cash ∧ ∀ c, netDeposits m'.ledger c = netDeposits m.ledger c := by
  simp only [deliverOne] at h
  cases hp : x.planned leg with
  | none =>
    rw [hp] at h
    rw [← pure_ok.mp h]
    exact ⟨rfl, fun _ => rfl⟩
  | some planned =>
    simp only [hp, bind_ok, pure_ok] at h
    obtain ⟨basis, -, rfl⟩ := h
    refine ⟨rfl, fun c => netDeposits_other _ _ ?_ ?_⟩ <;> simp [deliveryTransaction]

theorem realize_of {a b : CurrencyAmounts} {amount : Decimal} {currency : String}
    (h : realize a amount currency = .ok b) (c : String) :
    b.of c = a.of c + if c = currency then amount else 0 := by
  unfold realize at h
  split_ifs at h with hzero
  · simp [← pure_ok.mp h, hzero]
  · exact CurrencyAmounts.of_add h c

/-- What an exchange moves the gap of `c` by: the cash it books, the bases its
    legs land with and the holding's, less the P&L it realizes. -/
def exchangeShift (units : CurrencyUnits) (positions : Dict String Position) (x : ExchangeBooking)
    (held : Position) (c : String) : Decimal :=
  (x.consideration.sum fun currency amount =>
    if c = currency then moneyOf units amount currency else 0) +
  (x.received.map (legShift units positions c)).sum + holdingShift units x held c -
  if c = held.currency then moneyOf units x.realized held.currency else 0

/-- **What an exchange moves the gap by**, its legs delivering distinct assets,
    none of them the one exchanged. -/
theorem applyExchange_gap (h : applyExchange s x = .ok s')
    (hq : ∀ leg ∈ x.received, leg.quantity ≠ 0) (hnd : (x.received.map (·.assetId)).Nodup)
    (hown : x.assetId ∉ x.received.map (·.assetId)) : ∃ held,
      s.positions.get? x.assetId = some held ∧ held.quantity ≠ 0 ∧
      (WellBooked s.account.currencyUnits s.positions →
        WellBooked s'.account.currencyUnits s'.positions) ∧
      ∀ c, gap s' c = gap s c + exchangeShift s.account.currencyUnits s.positions x held c := by
  obtain ⟨held, received, positions, paid, delivered, gain, realized, hget, hne, hrec, hpos, hpaid,
    hdel, hgain, hreal, rfl⟩ := applyExchange_ok h
  obtain ⟨hsame, hwell, hsum⟩ := receiveLegs_spec hrec hq hnd
  obtain ⟨hwell', hsum'⟩ := exchangedHolding_spec hpos ((hsame _ hown).trans hget)
  have hcash : delivered.cash = paid.cash ∧
      ∀ c, netDeposits delivered.ledger c = netDeposits paid.ledger c := by
    refine foldlM_invariant (fun m : Consideration => m.cash = paid.cash ∧
      ∀ c, netDeposits m.ledger c = netDeposits paid.ledger c) hdel ⟨rfl, fun _ => rfl⟩ ?_
    intro leg _ m m' hm hinv
    obtain ⟨hc, hn⟩ := deliverOne_spec hm
    exact ⟨hc.trans hinv.1, fun c => (hn c).trans (hinv.2 c)⟩
  refine ⟨held, hget, hne, hwell' ∘ hwell, fun c => ?_⟩
  obtain ⟨hbal, hnet⟩ := payAll_spec hpaid c
  have hperm : ((x.consideration.entries.insertionSort fun a b => a.1 ≤ b.1).map fun e =>
      if c = e.1 then moneyOf s.account.currencyUnits e.2 e.1 else 0).sum =
      x.consideration.sum fun currency amount =>
        if c = currency then moneyOf s.account.currencyUnits amount currency else 0 :=
    ((List.perm_insertionSort _ _).map _).sum_eq
  rw [gap_eq, gap_eq, exchangeShift]
  simp only [hcash.1, hcash.2, hbal, hnet, hperm, hsum', hsum, realize_of hreal, moneyOf_eq hgain]
  ring

end AlphaLab
