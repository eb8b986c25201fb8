/-
  What an accepted operation of the book did.

  One inversion lemma an operation: the facts its refusals guard, the amounts
  it computed, and the state it left.  Every invariant of the book is read off
  these, not off the operations' definitions.
-/
import AlphaLab.Portfolio.Exchange

namespace AlphaLab

open Fallible

variable {s s' : PortfolioState}

variable {amount : Decimal} {timestamp : Instant}

theorem applyDeposit_ok {currency : String} (h : applyDeposit s amount currency timestamp = .ok s') :
    ∃ m,
    money s.account.currencyUnits amount currency = .ok m ∧ s' = { s with
      cash := s.cash.deposit m currency
      ledger := bookCash s s.ledger .deposit "CASH" m currency timestamp
      events := s.logged timestamp (.cashDeposited m currency) } := by
  simp only [applyDeposit, positiveMoney, bind_ok, pure_ok] at h
  obtain ⟨_, ⟨-, -, m, hm, -, -, rfl⟩, rfl⟩ := h
  exact ⟨m, hm, rfl⟩

theorem applyWithdrawal_ok {currency : String}
    (h : applyWithdrawal s amount currency timestamp = .ok s') : ∃ m cash,
    money s.account.currencyUnits amount currency = .ok m ∧ s.cash.withdraw m currency = .ok cash ∧
    s' = { s with
      cash := cash
      ledger := bookCash s s.ledger .withdrawal "CASH" (-m) currency timestamp
      events := s.logged timestamp (.cashWithdrawn m currency) } := by
  simp only [applyWithdrawal, positiveMoney, bind_ok, pure_ok] at h
  obtain ⟨_, ⟨-, -, m, hm, -, -, rfl⟩, cash, hcash, rfl⟩ := h
  exact ⟨m, cash, hm, hcash, rfl⟩

theorem convertCash_ok {fromCurrency toCurrency : String} {rates : FxRates} {financed : Bool}
    {conversion : FxConversion} (h : convertCash s amount fromCurrency toCurrency rates timestamp
      financed = .ok (s', conversion)) : ∃ m cash,
    money s.account.currencyUnits amount fromCurrency = .ok m ∧
    rates.convert m fromCurrency toCurrency (some timestamp) (some s.account.currencyUnits) =
      .ok conversion ∧
    debit s.cash m fromCurrency financed = .ok cash ∧ s' = { s with
      cash := cash.deposit conversion.converted toCurrency
      ledger := bookCash s (bookCash s s.ledger .withdrawal "CASH" (-m) fromCurrency timestamp)
        .deposit "CASH" conversion.converted toCurrency timestamp
      events := s.logged timestamp (.cashConverted m fromCurrency conversion.converted toCurrency
        conversion.rate.rate conversion.rate.asOf conversion.rate.source
        conversion.rate.derived) } := by
  simp only [convertCash, bind_ok, pure_ok, Prod.mk.injEq] at h
  obtain ⟨-, -, -, -, m, hm, conv, hconv, cash, hcash, rfl, rfl⟩ := h
  exact ⟨m, cash, hm, hconv, hcash, rfl⟩

theorem applyCashFlow_ok {flow : CashFlow} (h : applyCashFlow s flow timestamp = .ok s') :
    ∃ m realized,
    money s.account.currencyUnits flow.amount flow.currency = .ok m ∧
    s.realizedPnl.add m flow.currency = .ok realized ∧ s' = { s with
      cash := s.cash.settle m flow.currency
      ledger := bookCash s s.ledger flow.kind.transactionType
        (if flow.assetId = "" then "CASH" else flow.assetId) m flow.currency timestamp
      events := s.logged timestamp (.cashFlowBooked flow.kind.value flow.assetId m flow.currency
        flow.reference)
      realizedPnl := realized } := by
  simp only [applyCashFlow, bind_ok, pure_ok] at h
  obtain ⟨m, hm, -, -, realized, hreal, rfl⟩ := h
  exact ⟨m, realized, hm, hreal, rfl⟩

/-- What an accepted fill did: the facts its refusals guard, and the new state. -/
theorem applyFill_ok {f : Fill} (h : applyFill s f = .ok s') :
    f.quantity ≠ 0 ∧ ∃ commission pos value cash realized commissions newPos pnl,
      money s.account.currencyUnits f.commission f.currency = .ok commission ∧
      fillPosition s f = .ok pos ∧ pos.currency = f.currency ∧
      tradeValue s.account.currencyUnits pos f = .ok value ∧
      pos.applyFill f.quantity f.price f.timestamp = (newPos, pnl) ∧
      fillCash (if ¬ pos.paysNotional ∧ pnl ≠ 0 then s.cash.settle pnl f.currency else s.cash) pos f
        (cashImpact f.quantity value commission) = .ok cash ∧
      s.realizedPnl.add pnl f.currency = .ok realized ∧
      s.commissionPaid.add commission f.currency = .ok commissions ∧
      s' = { s with
        cash := cash
        positions := if newPos.quantity = 0 then s.positions.delete f.assetId
          else s.positions.set f.assetId newPos
        ledger := s.ledger ++ [fillTransaction s f commission
          (cashImpact f.quantity value commission + if ¬ pos.paysNotional then pnl else 0)]
        events := s.logged f.timestamp (fillEvent f pos newPos pnl)
        realizedPnl := realized
        commissionPaid := commissions
        pendingMarks := if newPos.quantity = 0 then s.pendingMarks.remove (· = f.assetId)
          else s.pendingMarks.insert f.assetId
        unsettled := settlePending s.unsettled f.timestamp (fillPending
          (fillTransaction s f commission
            (cashImpact f.quantity value commission + if ¬ pos.paysNotional then pnl else 0)) f
          (cashImpact f.quantity value commission + if ¬ pos.paysNotional then pnl else 0)) } := by
  simp only [applyFill, bind_ok, require_ok, pure_ok] at h
  obtain ⟨-, -, -, -, -, hq, commission, hcomm, pos, hpos, -, hcur, -, -, value, hvalue, h⟩ := h
  obtain ⟨cash, hcash, realized, hreal, commissions, hcomms, rfl⟩ := h
  refine ⟨hq, commission, pos, value, cash, realized, commissions,
    (pos.applyFill f.quantity f.price f.timestamp).1,
    (pos.applyFill f.quantity f.price f.timestamp).2, hcomm, hpos, hcur, hvalue, rfl, hcash, hreal,
    hcomms, ?_⟩
  simp only [decide_eq_true_eq]

theorem marked_ok {held : List (String × Position)} {prices : Dict String Decimal}
    (h : marked s held prices timestamp = .ok s') : ∃ m : Marking,
    held.foldlM (markOne s prices timestamp)
      ⟨s.positions, s.cash, s.realizedPnl, s.ledger, Dict.empty, []⟩ = .ok m ∧
    (s' = s ∨ s' = { s with
      positions := m.positions
      pendingMarks := s.pendingMarks.remove (· ∈ m.marked.keys)
      cash := m.cash
      realizedPnl := m.realizedPnl
      ledger := m.ledger
      events := s.logged timestamp (.marketValueUpdated m.marked) ++
        m.settled.map fun body => ⟨timestamp, s.account.accountId, body⟩ }) := by
  simp only [marked, bind_ok] at h
  obtain ⟨m, hm, h⟩ := h
  split_ifs at h
  exacts [⟨m, hm, .inl (pure_ok.mp h).symm⟩, ⟨m, hm, .inr (pure_ok.mp h).symm⟩]

theorem applySplit_ok {split : Split} (h : applySplit s split timestamp = .ok s') : ∃ p,
    s.positions.get? split.assetId = some p ∧ s' = { s with
      positions := s.positions.set split.assetId (p.split split.ratio timestamp)
      events := s.logged timestamp (.positionSplit split.assetId split.ratio
        (p.split split.ratio timestamp).quantity) } := by
  simp only [applySplit, bind_ok, orRefuse_ok, pure_ok] at h
  obtain ⟨p, hp, rfl⟩ := h
  exact ⟨p, hp, rfl⟩

theorem applyExchange_ok {x : ExchangeBooking} (h : applyExchange s x = .ok s') :
    ∃ held received positions paid delivered gain realized,
      s.positions.get? x.assetId = some held ∧ held.quantity ≠ 0 ∧
      x.received.foldlM (receiveLeg s.account.currencyUnits x.timestamp) s.positions =
        .ok received ∧
      exchangedHolding s.account.currencyUnits x held received = .ok positions ∧
      (x.consideration.entries.insertionSort fun a b => a.1 ≤ b.1).foldlM (payOne s x)
        ⟨s.cash, s.ledger, s.unsettled, Dict.empty⟩ = .ok paid ∧
      x.received.foldlM (deliverOne s x) paid = .ok delivered ∧
      money s.account.currencyUnits x.realized held.currency = .ok gain ∧
      realize s.realizedPnl gain held.currency = .ok realized ∧ s' = { s with
        positions := positions
        cash := delivered.cash
        ledger := delivered.ledger
        unsettled := delivered.unsettled
        events := s.logged x.timestamp (.positionExchanged x.assetId
          (held.quantity - (x.kept.getD (0, 0)).1)
          (Dict.ofList (x.received.map fun leg => (leg.assetId, leg.quantity))) delivered.moved gain
          x.retainedBasis.isSome x.reference)
        realizedPnl := realized } := by
  simp only [applyExchange, bind_ok, orRefuse_ok, pure_ok] at h
  obtain ⟨held, hheld, received, hrec, positions, hpos, paid, hpaid, delivered, hdel, gain, hgain,
    realized, hreal, rfl⟩ := h
  obtain ⟨hget, hne⟩ := Option.filter_eq_some_iff.mp hheld
  exact ⟨held, received, positions, paid, delivered, gain, realized, hget, by simpa using hne, hrec,
    hpos, hpaid, hdel, hgain, hreal, rfl⟩

theorem amendPayment_ok {a : PaymentAmendment} (h : amendPayment s a = .ok s') :
    s' = s ∨ (paymentChain s.ledger a.holding a.effectiveAt a.currency ≠ [] ∧ ∃ m,
      changePayment s a (paymentChain s.ledger a.holding a.effectiveAt a.currency)
        ((paymentChain s.ledger a.holding a.effectiveAt a.currency).map (·.quantity)).sum
        ((waitingOn s ((paymentChain s.ledger a.holding a.effectiveAt a.currency).map
          (·.transactionId))).filter (·.pendingAt a.timestamp)) = .ok m ∧
      s' = { s with
        cash := m.cash
        ledger := m.ledger
        unsettled := m.unsettled
        realizedPnl := m.realizedPnl
        events := s.logged a.timestamp (.paymentAmended a.holding a.effectiveAt a.currency a.change
          ((paymentChain s.ledger a.holding a.effectiveAt a.currency).map (·.quantity)).sum
          m.owedAfter m.settlesAt m.replacedIn m.replacement a.reference) }) := by
  simp only [amendPayment] at h
  split_ifs at h with hchain
  · simp only [bind_ok, pure_ok] at h
    obtain ⟨-, -, rfl⟩ := h
    exact Or.inl rfl
  · right
    split at h
    · cases h
    · simp only [bind_ok, pure_ok] at h
      obtain ⟨m, hm, rfl⟩ := h
      exact ⟨hchain, m, hm, rfl⟩

theorem amendDelivery_ok {a : DeliveryAmendment} {parts : List (String × Decimal)}
    (h : amendDelivery s a = .ok (s', parts)) :
    (deliveryOf s a = none ∧ s' = s) ∨ ∃ d ch realized,
      deliveryOf s a = some d ∧ changeDelivery s a d = .ok ch ∧
      realizeLost s.realizedPnl ch.writtenOff (shareOf d.basis ch.writtenOff d.owed)
        d.original.currency = .ok realized ∧
      s' = { s with
        positions := if ch.writtenOff = 0 then s.positions
          else writeOffUnits s a ch.writtenOff (shareOf d.basis ch.writtenOff d.owed)
        ledger := s.ledger ++ [ch.transaction]
        unsettled := ch.unsettled
        realizedPnl := realized
        events := s.logged a.timestamp (.deliveryAmended a.holding a.effectiveAt a.assetId a.change
          d.owed (d.owed - ch.writtenOff) ch.settlesAt a.reference) } := by
  simp only [amendDelivery] at h
  cases hd : deliveryOf s a with
  | none =>
    simp only [hd, pure_ok, Prod.mk.injEq] at h
    exact Or.inl ⟨rfl, h.1.symm⟩
  | some d =>
    right
    simp only [hd, bind_ok, pure_ok, Prod.mk.injEq] at h
    obtain ⟨-, -, ch, hch, realized, hreal, rfl, -⟩ := h
    exact ⟨d, ch, realized, rfl, hch, hreal, rfl⟩

end AlphaLab
