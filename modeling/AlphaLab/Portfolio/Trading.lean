/-
  Trading keeps the accounting identity.

  One lemma an operation: the gap of the two sides is what it was
  (`applyFill_gap`, `marked_keeps`, …) and the positions stay booked at their
  account's minor units (`applyFill_wellBooked`, …).
-/
import AlphaLab.Portfolio.Accepted
import AlphaLab.Portfolio.Accounting

namespace AlphaLab

open Fallible

variable {s s' : PortfolioState}

variable {amount : Decimal} {currency : String} {timestamp : Instant}

theorem applyDeposit_gap (h : applyDeposit s amount currency timestamp = .ok s') (c : String) :
    gap s' c = gap s c := by
  obtain ⟨m, -, rfl⟩ := applyDeposit_ok h
  simp only [gap_eq, CashLedger.balance_deposit, netDeposits_bookCash, true_or, true_and]
  ring

theorem applyWithdrawal_gap (h : applyWithdrawal s amount currency timestamp = .ok s') (c : String)
    : gap s' c = gap s c := by
  obtain ⟨m, cash, -, hcash, rfl⟩ := applyWithdrawal_ok h
  simp only [gap_eq, s.cash.balance_withdraw hcash, netDeposits_bookCash, or_true, true_and]
  ring

variable {cash cash' : CashLedger} {financed : Bool}

theorem debit_balance (h : debit cash amount currency financed = .ok cash') (c : String) :
    cash'.balance c = cash.balance c + if c = currency then -amount else 0 := by
  unfold debit at h
  split_ifs at h
  · rw [← pure_ok.mp h, CashLedger.balance_settle]
  · exact cash.balance_withdraw h c

theorem convertCash_gap {fromCurrency toCurrency : String} {rates : FxRates}
    {conversion : FxConversion} (h : convertCash s amount fromCurrency toCurrency rates timestamp
      financed = .ok (s', conversion)) (c : String) : gap s' c = gap s c := by
  obtain ⟨m, cash, -, -, hcash, rfl⟩ := convertCash_ok h
  simp only [gap_eq, CashLedger.balance_deposit, debit_balance hcash, netDeposits_bookCash,
    true_or, or_true, true_and]
  ring

theorem applyCashFlow_gap {flow : CashFlow} (h : applyCashFlow s flow timestamp = .ok s')
    (c : String) : gap s' c = gap s c := by
  obtain ⟨m, realized, -, hreal, rfl⟩ := applyCashFlow_ok h
  have hnet : ¬ (flow.kind.transactionType = .deposit ∨
      flow.kind.transactionType = .withdrawal) := by
    cases flow.kind <;> simp [CashFlowKind.transactionType]
  simp only [gap_eq, CashLedger.balance_settle, netDeposits_bookCash, hnet, false_and, if_false,
    CurrencyAmounts.of_add hreal]
  ring

/-! ## Fills -/

variable {units : CurrencyUnits} {p : Position}

theorem flatPosition_terms {assetId currency : String} {price : Decimal}
    {economics : Option InstrumentEconomics}
    (h : flatPosition units assetId price currency timestamp economics = some p) :
    p.assetId = assetId ∧ p.currency = currency ∧ p.economics = economics ∧ p.quantity = 0 ∧
      p.realizedPnl = 0 ∧ p.costBasis = none ∧ BookedAt units p := by
  unfold flatPosition at h
  split at h
  · cases h
  · rename_i n hn
    cases h
    exact ⟨rfl, rfl, rfl, rfl, rfl, rfl, n, rfl, hn⟩

variable {f : Fill} {pos : Position}

theorem fillPosition_spec (h : fillPosition s f = .ok pos)
    (hwell : WellBooked s.account.currencyUnits s.positions) :
    pos.assetId = f.assetId ∧ BookedAt s.account.currencyUnits pos ∧
      ∀ c, s.positions.sumAt (fun _ p => basisOf c p) f.assetId = basisOf c pos := by
  unfold fillPosition at h
  cases hget : s.positions.get? f.assetId with
  | some held =>
    rw [hget] at h
    obtain rfl : held = pos := pure_ok.mp h
    obtain ⟨ha, hb⟩ := hwell _ _ hget
    exact ⟨ha, hb, fun c => by simp [basisOf_sumAt, hget]⟩
  | none =>
    rw [hget] at h
    obtain ⟨ha, -, -, hq, -, -, hb⟩ := flatPosition_terms (orRefuse_ok.mp h)
    refine ⟨ha, hb, fun c => ?_⟩
    rw [basisOf_sumAt, hget]
    simp [basisOf, Position.signedBasis, hq]

theorem tradeValue_ok {value : Decimal} (h : tradeValue units pos f = .ok value)
    (hb : BookedAt units pos) (hc : pos.currency = f.currency) :
    value = if pos.paysNotional then pos.total f.quantity f.price else 0 := by
  have hunits := hb.decimals
  rw [hc] at hunits
  unfold tradeValue at h
  by_cases hpays : pos.paysNotional = true
  · rw [if_neg (not_not.mpr hpays)] at h
    rw [if_pos hpays, Position.total, Position.scaled, Position.money]
    by_cases hmul : pos.multiplier = 1
    · rw [if_pos hmul, orRefuse_ok, notional, toMoney_eq_some] at h
      obtain ⟨n, hn, rfl⟩ := h
      rw [hunits] at hn
      rw [if_pos hmul, Option.some.inj hn]
    · rw [if_neg hmul, money_ok] at h
      obtain ⟨n, hn, rfl⟩ := h
      rw [hunits] at hn
      rw [if_neg hmul, Option.some.inj hn]
  · rw [if_pos hpays] at h
    rw [if_neg hpays, ← pure_ok.mp h]

theorem fillCash_balance {impact : Decimal} (h : fillCash cash pos f impact = .ok cash')
    (c : String) : cash'.balance c = cash.balance c + if c = f.currency then impact else 0 := by
  unfold fillCash at h
  split_ifs at h with hpos howed hneg
  · rw [← pure_ok.mp h, CashLedger.balance_deposit]
  · rw [← pure_ok.mp h, CashLedger.balance_settle]
  · rw [cash.balance_withdraw h, neg_neg]
  · -- no cash moves
    obtain rfl : impact = 0 := le_antisymm (not_lt.mp hpos) (not_lt.mp hneg)
    simp [← pure_ok.mp h]

theorem settled_balance (cash : CashLedger) (pays : Bool) (pnl : Decimal) (currency c : String) :
    (if ¬ pays ∧ pnl ≠ 0 then cash.settle pnl currency else cash).balance c =
      cash.balance c + if pays = false ∧ c = currency then pnl else 0 := by
  cases pays with
  | true => simp
  | false =>
    by_cases hpnl : pnl = 0
    · simp [hpnl]
    · simp [hpnl, CashLedger.balance_settle]

theorem fill_bases {pos newPos : Position}
    (hold : ∀ c, s.positions.sumAt (fun _ p => basisOf c p) f.assetId = basisOf c pos) (c : String)
    :
    ((if newPos.quantity = 0 then s.positions.delete f.assetId
      else s.positions.set f.assetId newPos).sum fun _ p => basisOf c p) =
      (s.positions.sum fun _ p => basisOf c p) - basisOf c pos + basisOf c newPos := by
  split_ifs with hclosed
  · have hzero : basisOf c newPos = 0 := by simp [basisOf, Position.signedBasis, hclosed]
    rw [Dict.sum_delete, hold, hzero, add_zero]
  · rw [Dict.sum_set, hold]

/-- **A fill moves both sides of the identity alike.** -/
theorem applyFill_gap (h : applyFill s f = .ok s')
    (hwell : WellBooked s.account.currencyUnits s.positions) (c : String) : gap s' c = gap s c := by
  obtain ⟨hq, commission, pos, value, cash, realized, commissions, newPos, pnl, -, hpos, hcur,
    hvalue, hfill, hcash, hreal, hcomms, rfl⟩ := applyFill_ok h
  obtain ⟨-, hbooked, hold⟩ := fillPosition_spec hpos hwell
  obtain ⟨b, r, o, heq, hbooks⟩ := pos.applyFill_books f.price f.timestamp hq
  obtain ⟨rfl, rfl⟩ := Prod.mk.inj (hfill.symm.trans heq)
  have hterms := pos.rebasedAt_terms (pos.quantity + f.quantity) b (pos.realizedPnl + pnl) f.price
    f.timestamp o
  have hsigned : -cashImpact f.quantity value commission =
      Position.signed f.quantity value + commission := by
    rcases hq.lt_or_gt with hneg | hpos'
    · rw [Position.signed_of_neg hneg, cashImpact, if_pos hneg]
      ring
    · rw [Position.signed_of_pos hpos', cashImpact, if_neg hpos'.not_gt]
      ring
  have hnet : netDeposits (s.ledger ++ [fillTransaction s f commission
      (cashImpact f.quantity value commission + if ¬ pos.paysNotional then pnl else 0)]) c =
      netDeposits s.ledger c := by
    apply netDeposits_other <;> simp only [fillTransaction] <;> split_ifs <;> simp
  rw [gap_eq, gap_eq]
  simp only [hnet, fill_bases hold, basisOf_terms hterms, CurrencyAmounts.of_add hreal,
    CurrencyAmounts.of_add hcomms, fillCash_balance hcash, hcur, settled_balance]
  by_cases hc : c = f.currency
  · have hv := tradeValue_ok hvalue hbooked hcur
    simp only [hc, if_true, and_true]
    cases hpays : pos.paysNotional with
    | true =>
      -- the signed basis moves by what the cash does, and the P&L realized
      have hbal := hbooks.balanced hpays
      rw [hpays, if_pos rfl] at hv
      simp only [Position.signedBasis, hterms.paysNotional, hpays, if_true,
        Position.rebasedAt_quantity, Position.rebasedAt_basis, hbal, ← hv, Bool.true_eq_false,
        if_false]
      linear_combination -hsigned
    | false =>
      -- the P&L is the cash, and no basis is carried
      have hzero : Position.signed f.quantity value = 0 := by
        rw [hv, hpays, if_neg (by decide)]
        simp [Position.signed]
      simp only [Position.signedBasis, hterms.paysNotional, hpays, if_true, Bool.false_eq_true,
        if_false]
      linear_combination -hsigned - hzero
  · simp only [hc, if_false, and_false, add_zero]
    ring

theorem applyFill_wellBooked (h : applyFill s f = .ok s')
    (hwell : WellBooked s.account.currencyUnits s.positions) :
    WellBooked s'.account.currencyUnits s'.positions := by
  obtain ⟨hq, commission, pos, value, cash, realized, commissions, newPos, pnl, -, hpos, hcur,
    -, hfill, -, -, -, rfl⟩ := applyFill_ok h
  obtain ⟨ha, hbooked, -⟩ := fillPosition_spec hpos hwell
  obtain ⟨b, r, o, heq, -⟩ := pos.applyFill_books f.price f.timestamp hq
  obtain ⟨rfl, rfl⟩ := Prod.mk.inj (hfill.symm.trans heq)
  have hterms := pos.rebasedAt_terms (pos.quantity + f.quantity) b (pos.realizedPnl + pnl) f.price
    f.timestamp o
  dsimp only
  split_ifs
  · exact wellBooked_delete hwell _
  · exact wellBooked_set hwell (hterms.1.trans ha) (hbooked.of_terms hterms)

/-! ## Marks -/

def Marking.bookedIn (m : Marking) (s : PortfolioState) : PortfolioState :=
  { s with positions := m.positions, cash := m.cash, realizedPnl := m.realizedPnl,
           ledger := m.ledger }

/-- What marking keeps: the gap, and every position's terms and signed basis. -/
structure Marking.Keeps (m : Marking) (s : PortfolioState) : Prop where
  gap_eq : ∀ c, gap (m.bookedIn s) c = gap s c
  wellBooked : WellBooked s.account.currencyUnits m.positions
  same : ∀ asset p, s.positions.get? asset = some p →
    ∃ q, m.positions.get? asset = some q ∧ p.SameTerms q ∧ q.signedBasis = p.signedBasis

theorem basisOf_of_terms {p q : Position} (ht : p.SameTerms q)
    (hb : q.signedBasis = p.signedBasis) (c : String) : basisOf c q = basisOf c p := by
  rw [basisOf_terms ht, hb, sub_self, ite_self, add_zero]

variable {prices : Dict String Decimal}

theorem markOne_keeps {m m' : Marking} {held : String × Position}
    (hheld : s.positions.get? held.1 = some held.2)
    (hwell : WellBooked s.account.currencyUnits s.positions)
    (h : markOne s prices timestamp m held = .ok m') (hm : m.Keeps s) : m'.Keeps s := by
  obtain ⟨asset, p⟩ := held
  simp only at hheld
  simp only [markOne] at h
  cases hprice : prices.get? asset with
  | none =>
    rw [hprice] at h
    exact pure_ok.mp h ▸ hm
  | some price =>
    simp only [hprice, bind_ok, require_ok] at h
    obtain ⟨-, -, h⟩ := h
    obtain ⟨q, hq, hpq, hbq⟩ := hm.same asset p hheld
    obtain ⟨hasset, hbooked⟩ := hwell asset p hheld
    have hterms := p.settle_terms price timestamp
    have hbasis := p.settle_signedBasis price timestamp
    -- the mark replaces the position by one of the same terms and signed basis
    have hsum : ∀ c, ((m.positions.set asset (p.settle price timestamp).1).sum
        fun _ p => basisOf c p) = m.positions.sum fun _ p => basisOf c p := by
      intro c
      rw [Dict.sum_set, basisOf_sumAt, hq, Option.map_some, Option.getD_some,
        basisOf_of_terms hpq hbq, basisOf_of_terms hterms hbasis, sub_add_cancel]
    have hwell' : WellBooked s.account.currencyUnits
        (m.positions.set asset (p.settle price timestamp).1) :=
      wellBooked_set hm.wellBooked (hterms.1.trans hasset) (hbooked.of_terms hterms)
    have hsame : ∀ a p', s.positions.get? a = some p' →
        ∃ q, (m.positions.set asset (p.settle price timestamp).1).get? a = some q ∧
          p'.SameTerms q ∧ q.signedBasis = p'.signedBasis := by
      intro a p' hp'
      by_cases ha : a = asset
      · subst ha
        rw [hheld] at hp'
        obtain rfl := Option.some.inj hp'
        exact ⟨_, Dict.get?_set_self _ _ _, hterms, hbasis⟩
      · rw [Dict.get?_set_of_ne _ _ ha]
        exact hm.same a p' hp'
    split_ifs at h with hamount
    · rw [← pure_ok.mp h]
      refine ⟨fun c => ?_, hwell', hsame⟩
      rw [← hm.gap_eq c, gap_eq, gap_eq]
      simp only [Marking.bookedIn, hsum]
    · simp only [bind_ok, pure_ok] at h
      obtain ⟨realized, hreal, rfl⟩ := h
      refine ⟨fun c => ?_, hwell', hsame⟩
      have hnet : netDeposits (m.ledger ++ [variationTransaction s m.ledger asset p price timestamp])
          c = netDeposits m.ledger c :=
        netDeposits_other _ _ (by simp [variationTransaction]) (by simp [variationTransaction])
      rw [← hm.gap_eq c, gap_eq, gap_eq]
      simp only [Marking.bookedIn, hsum, hnet, CashLedger.balance_settle,
        CurrencyAmounts.of_add hreal]
      ring

/-- **Marks keep the gap**: what settles as cash is realized. -/
theorem marked_keeps {held : List (String × Position)} (h : marked s held prices timestamp = .ok s')
    (hheld : ∀ e ∈ held, s.positions.get? e.1 = some e.2)
    (hwell : WellBooked s.account.currencyUnits s.positions) :
    (∀ c, gap s' c = gap s c) ∧ WellBooked s'.account.currencyUnits s'.positions := by
  obtain ⟨m, hm, hs'⟩ := marked_ok h
  have hkeeps : m.Keeps s := by
    refine foldlM_invariant (Marking.Keeps · s) hm ⟨fun c => rfl, hwell, ?_⟩ ?_
    · intro asset p hp
      exact ⟨p, hp, ⟨rfl, rfl, rfl, rfl⟩, rfl⟩
    · intro e he m₁ m₂ hstep hm₁
      exact markOne_keeps (hheld e he) hwell hstep hm₁
  rcases hs' with rfl | rfl
  · exact ⟨fun _ => rfl, hwell⟩
  · refine ⟨fun c => ?_, hkeeps.wellBooked⟩
    rw [← hkeeps.gap_eq c, gap_eq, gap_eq]
    rfl

theorem updateMarketPrices_held (s : PortfolioState) :
    ∀ e ∈ s.positions.entries, s.positions.get? e.1 = some e.2 := by
  intro e he
  exact (s.positions.get?_eq_some).mpr he

theorem markChanged_held (s : PortfolioState) (assets : List String) :
    ∀ e ∈ assets.filterMap fun asset => (s.positions.get? asset).map (asset, ·),
      s.positions.get? e.1 = some e.2 := by
  intro e he
  obtain ⟨asset, -, hmap⟩ := List.mem_filterMap.mp he
  obtain ⟨p, hp, rfl⟩ := Option.map_eq_some_iff.mp hmap
  exact hp

theorem applySplit_keeps {split : Split} (h : applySplit s split timestamp = .ok s')
    (hwell : WellBooked s.account.currencyUnits s.positions) :
    (∀ c, gap s' c = gap s c) ∧ WellBooked s'.account.currencyUnits s'.positions := by
  obtain ⟨p, hp, rfl⟩ := applySplit_ok h
  obtain ⟨hasset, hbooked⟩ := hwell _ _ hp
  have hterms := p.split_terms split.ratio timestamp
  refine ⟨fun c => ?_, wellBooked_set hwell (hterms.1.trans hasset) (hbooked.of_terms hterms)⟩
  rw [gap_eq, gap_eq, Dict.sum_set, basisOf_sumAt, hp, Option.map_some, Option.getD_some,
    basisOf_of_terms hterms (p.split_signedBasis timestamp split.ratio_pos), sub_add_cancel]

end AlphaLab
