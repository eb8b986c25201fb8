/-
  Amendments and the accounting identity.

  * `amendPayment_gap`: a payment's amendment always keeps the gap, its cash
    and its realized P&L being one amount.
  * `amendDelivery_gap`: a delivery's amendment moves the gap by what the
    position and the realized P&L disagree on; `WriteOffBalanced` says when
    they do not (`writeOffShift_eq_zero`): a long kept, but not a short.
-/
import AlphaLab.Portfolio.ExchangeAccounting

namespace AlphaLab

open Fallible

variable {s s' : PortfolioState}

/-! ## Payments -/

/-- What an amended payment keeps: cash against realized P&L, and net deposits. -/
structure Amended.Keeps (m : Amended) (s : PortfolioState) (c : String) : Prop where
  cash : m.cash.balance c - m.realizedPnl.of c = s.cash.balance c - s.realizedPnl.of c
  net : netDeposits m.ledger c = netDeposits s.ledger c

theorem netDeposits_amendment (ledger : List Transaction) (a : PaymentAmendment)
    (ledger' : List Transaction) (amount : Decimal) (currency : String) (extra : Metadata)
    (c : String) :
    netDeposits (ledger ++ [amendmentTransaction s a ledger' amount currency extra]) c =
      netDeposits ledger c :=
  netDeposits_other _ _ (by simp [amendmentTransaction]) (by simp [amendmentTransaction])

variable {a : PaymentAmendment} {m : Amended}

theorem writeOff_keeps {chain : List Transaction} {owed : Decimal}
    (h : writeOff s a chain owed = .ok m) (c : String) : m.Keeps s c := by
  simp only [writeOff, bind_ok, pure_ok] at h
  obtain ⟨realized, hreal, rfl⟩ := h
  refine ⟨?_, netDeposits_amendment ..⟩
  simp only [CashLedger.balance_settle, CurrencyAmounts.of_add hreal]
  ring

variable {currency : String}

theorem owePayment_keeps {m m' : Amended} {amount : Decimal} {perUnit : Decimal}
    {settles : Option Instant} (h : owePayment s a m amount currency perUnit settles = .ok m')
    {c : String} (hm : m.Keeps s c) : m'.Keeps s c := by
  simp only [owePayment, bind_ok, pure_ok] at h
  obtain ⟨realized, hreal, rfl⟩ := h
  refine ⟨?_, (netDeposits_amendment ..).trans hm.net⟩
  simp only [CashLedger.balance_settle, CurrencyAmounts.of_add hreal, ← hm.cash]
  ring

theorem changePayment_keeps {chain : List Transaction} {owed : Decimal}
    {waiting : List PendingSettlement} (h : changePayment s a chain owed waiting = .ok m)
    (c : String) : m.Keeps s c := by
  unfold changePayment at h
  cases hchange : a.change with
  | delayed =>
    simp only [hchange, delayPayment, bind_ok, pure_ok] at h
    obtain ⟨paysAt, -, -, -, rfl⟩ := h
    exact ⟨rfl, netDeposits_amendment ..⟩
  | failed =>
    rw [hchange] at h
    exact writeOff_keeps h c
  | reversed =>
    simp only [hchange, bind_ok] at h
    obtain ⟨-, -, h⟩ := h
    exact writeOff_keeps h c
  | corrected =>
    simp only [hchange, correctPayment, bind_ok] at h
    obtain ⟨units, -, perUnit, -, owedAfter, -, h⟩ := h
    exact owePayment_keeps h ⟨rfl, rfl⟩
  | replaced =>
    simp only [hchange, replacePayment, bind_ok] at h
    obtain ⟨units, -, perUnit, -, into, -, out, hout, replacement, -, h⟩ := h
    exact owePayment_keeps h ⟨(writeOff_keeps hout c).cash, (writeOff_keeps hout c).net⟩

theorem amendPayment_gap (h : amendPayment s a = .ok s') (c : String) : gap s' c = gap s c := by
  rcases amendPayment_ok h with rfl | ⟨-, m, hm, rfl⟩
  · rfl
  · obtain ⟨hcash, hnet⟩ := changePayment_keeps hm c
    rw [gap_eq, gap_eq]
    simp only [hnet]
    linear_combination hcash

theorem amendPayment_positions (h : amendPayment s a = .ok s') :
    s'.positions = s.positions ∧ s'.account = s.account := by
  rcases amendPayment_ok h with rfl | ⟨-, m, -, rfl⟩ <;> exact ⟨rfl, rfl⟩

/-! ## Deliveries -/

def writtenOff (a : DeliveryAmendment) (d : Delivery) : Decimal :=
  match a.change with
  | .corrected => d.owed - a.units.getD 0
  | .failed => d.owed
  | .delayed | .reversed | .replaced => 0

def lostBasis (a : DeliveryAmendment) (d : Delivery) : Decimal :=
  shareOf d.basis (writtenOff a d) d.owed

theorem changeDelivery_spec {a : DeliveryAmendment} {d : Delivery} {ch : DeliveryChange}
    (h : changeDelivery s a d = .ok ch) :
    ch.writtenOff = writtenOff a d ∧
      ∃ extra, ch.transaction = deliveryAmendmentTransaction s a d extra := by
  unfold changeDelivery at h
  unfold writtenOff
  cases hchange : a.change with
  | delayed =>
    simp only [hchange, bind_ok, pure_ok] at h
    obtain ⟨deliversAt, -, rfl⟩ := h
    exact ⟨rfl, _, rfl⟩
  | corrected =>
    simp only [hchange, bind_ok, orRefuse_ok, pure_ok] at h
    obtain ⟨units, hunits, -, -, rfl⟩ := h
    exact ⟨by simp [hunits], _, rfl⟩
  | failed =>
    simp only [hchange, pure_ok] at h
    subst h
    exact ⟨rfl, _, rfl⟩
  | reversed | replaced => simp [hchange] at h

/-- The basis a position of `p` has in `currency` after `w` units and `lost`
    basis are written off, less what it had, and the P&L that leaves. -/
def writeOffShift (p : Option Position) (currency : String) (w lost : Decimal) (c : String) :
    Decimal :=
  (p.elim 0 fun p => if c = p.currency ∧ p.paysNotional = true then
      Position.signed (p.quantity - w) (p.basis - lost) - Position.signed p.quantity p.basis
    else 0) + if c = currency then lost else 0

theorem writeOffUnits_spec (s : PortfolioState) (a : DeliveryAmendment) (w lost : Decimal)
    (units : CurrencyUnits) :
    (WellBooked units s.positions → WellBooked units (writeOffUnits s a w lost)) ∧
    ∀ c, ((writeOffUnits s a w lost).sum fun _ p => basisOf c p) =
      (s.positions.sum fun _ p => basisOf c p) +
        (s.positions.get? a.assetId).elim 0 fun p =>
          if c = p.currency ∧ p.paysNotional = true then
            Position.signed (p.quantity - w) (p.basis - lost) - Position.signed p.quantity p.basis
          else 0 := by
  unfold writeOffUnits
  cases hget : s.positions.get? a.assetId with
  | none => exact ⟨id, fun c => by simp⟩
  | some p =>
    simp only [Option.elim_some]
    split_ifs with hrem
    · refine ⟨fun hwell => wellBooked_delete hwell _, fun c => ?_⟩
      rw [Dict.sum_delete, basisOf_sumAt, hget, Option.map_some, Option.getD_some, hrem,
        Position.signed_zero, basisOf, Position.signedBasis]
      by_cases hc : c = p.currency
      · subst hc
        cases p.paysNotional <;> simp [sub_eq_add_neg]
      · cases p.paysNotional <;> simp [hc, Ne.symm hc]
    · have hterms := p.rebasedAt_terms (p.quantity - w) (p.basis - lost) p.realizedPnl
        p.marketPrice a.timestamp p.openedAt
      refine ⟨fun hwell => wellBooked_terms hwell hget hterms, fun c => ?_⟩
      rw [Dict.sum_set, basisOf_sumAt, hget, Option.map_some, Option.getD_some, Position.rebased,
        basisOf_terms hterms]
      simp only [Position.signedBasis, hterms.paysNotional, Position.rebasedAt_quantity,
        Position.rebasedAt_basis]
      by_cases hc : c = p.currency <;> cases p.paysNotional <;> simp [hc]
      ring

variable {w lost : Decimal}

theorem realizeLost_of {a b : CurrencyAmounts} (h : realizeLost a w lost currency = .ok b)
    (c : String) : b.of c = a.of c - if w ≠ 0 ∧ c = currency then lost else 0 := by
  unfold realizeLost at h
  split_ifs at h with hw
  · simp [← pure_ok.mp h, hw]
  · rw [CurrencyAmounts.of_add h c]
    by_cases hc : c = currency <;> simp [hw, hc, sub_eq_add_neg]

theorem amendDelivery_gap {a : DeliveryAmendment} {parts : List (String × Decimal)}
    (h : amendDelivery s a = .ok (s', parts)) :
    (WellBooked s.account.currencyUnits s.positions →
      WellBooked s'.account.currencyUnits s'.positions) ∧ ∀ c, gap s' c = gap s c +
      (deliveryOf s a).elim 0 fun d => if writtenOff a d = 0 then 0 else
        writeOffShift (s.positions.get? a.assetId) d.original.currency (writtenOff a d)
          (lostBasis a d) c := by
  rcases amendDelivery_ok h with ⟨hd, rfl⟩ | ⟨d, ch, realized, hd, hch, hreal, rfl⟩
  · exact ⟨id, fun c => by simp [hd]⟩
  · obtain ⟨hoff, extra, htx⟩ := changeDelivery_spec hch
    have hnet : ∀ c, netDeposits (s.ledger ++ [ch.transaction]) c = netDeposits s.ledger c := by
      intro c
      rw [htx]
      exact netDeposits_other _ _ (by simp [deliveryAmendmentTransaction])
        (by simp [deliveryAmendmentTransaction])
    obtain ⟨hwell, hsum⟩ := writeOffUnits_spec s a ch.writtenOff
      (shareOf d.basis ch.writtenOff d.owed) s.account.currencyUnits
    simp only [hd, Option.elim_some, lostBasis, ← hoff]
    by_cases hw : ch.writtenOff = 0
    · simp only [hw, if_true]
      refine ⟨id, fun c => ?_⟩
      rw [gap_eq, gap_eq]
      simp [hnet, realizeLost_of hreal, hw]
    · simp only [hw, if_false]
      refine ⟨hwell, fun c => ?_⟩
      rw [gap_eq, gap_eq, writeOffShift]
      simp only [hnet, hsum, realizeLost_of hreal, hw, ne_eq, not_false_eq_true, true_and]
      ring

/-- What writing `w` units and `lost` basis off a holding in `currency` needs for
    the position and the realized P&L to agree. -/
def WriteOffBalanced (p : Option Position) (currency : String) (w lost : Decimal) : Prop :=
  match p with
  | none => lost = 0
  | some p =>
    if p.currency = currency ∧ p.paysNotional = true then
      -- a long that keeps units, or goes with exactly its basis
      (0 < p.quantity ∧ (0 < p.quantity - w ∨ lost = p.basis)) ∨
      -- a short loses its basis the other way
      (p.quantity < 0 ∧ ((p.quantity - w < 0 ∧ lost = 0) ∨ (p.quantity - w = 0 ∧ lost = -p.basis) ∨
        (0 < p.quantity - w ∧ p.basis = 0)))
    else lost = 0 ∧ (p.paysNotional = true →
      Position.signed (p.quantity - w) p.basis = Position.signed p.quantity p.basis)

instance (p : Option Position) (currency : String) (w lost : Decimal) :
    Decidable (WriteOffBalanced p currency w lost) := by
  unfold WriteOffBalanced
  cases p <;> infer_instance

theorem writeOff_long {q b w lost : Decimal} (hq : 0 < q) :
    Position.signed (q - w) (b - lost) - Position.signed q b + lost = 0 ↔
      0 < q - w ∨ lost = b := by
  rw [Position.signed_of_pos hq]
  rcases lt_trichotomy (q - w) 0 with hr | hr | hr
  · rw [Position.signed_of_neg hr]
    constructor
    · intro h
      exact Or.inr (by linarith)
    · rintro (h | h)
      exacts [absurd h hr.not_gt, by linarith]
  · rw [hr, Position.signed_zero]
    constructor
    · intro h
      exact Or.inr (by linarith)
    · rintro (h | h)
      exacts [absurd h (lt_irrefl 0), by linarith]
  · rw [Position.signed_of_pos hr]
    exact ⟨fun _ => Or.inl hr, fun _ => by ring⟩

theorem writeOff_short {q b w lost : Decimal} (hq : q < 0) :
    Position.signed (q - w) (b - lost) - Position.signed q b + lost = 0 ↔
      (q - w < 0 ∧ lost = 0) ∨ (q - w = 0 ∧ lost = -b) ∨ (0 < q - w ∧ b = 0) := by
  rw [Position.signed_of_neg hq]
  rcases lt_trichotomy (q - w) 0 with hr | hr | hr
  · rw [Position.signed_of_neg hr]
    simp only [hr, hr.ne, hr.not_gt, true_and, false_and, or_false]
    exact ⟨fun h => by linarith, fun h => by rw [h]; ring⟩
  · rw [hr, Position.signed_zero]
    simp only [lt_irrefl, true_and, false_and, false_or, or_false]
    exact ⟨fun h => by linarith, fun h => by rw [h]; ring⟩
  · rw [Position.signed_of_pos hr]
    simp only [hr, hr.ne', hr.not_gt, true_and, false_and, false_or]
    exact ⟨fun h => by linarith, fun h => by rw [h]; ring⟩

/-- **Units written off keep the gap exactly where the write-off balances.** -/
theorem writeOffShift_eq_zero {p : Option Position} (hq : ∀ p' ∈ p, p'.quantity ≠ 0) :
    (∀ c, writeOffShift p currency w lost c = 0) ↔ WriteOffBalanced p currency w lost := by
  cases p with
  | none =>
    simp only [writeOffShift, WriteOffBalanced, Option.elim_none, zero_add]
    exact ⟨fun h => by simpa using h currency, fun h c => by simp [h]⟩
  | some p =>
    have hq : p.quantity ≠ 0 := hq p rfl
    simp only [writeOffShift, WriteOffBalanced, Option.elim_some]
    by_cases hown : p.currency = currency ∧ p.paysNotional = true
    · obtain ⟨rfl, hpays⟩ := hown
      rw [if_pos ⟨rfl, hpays⟩]
      have hone : (∀ c, ((if c = p.currency ∧ p.paysNotional = true then
          Position.signed (p.quantity - w) (p.basis - lost) - Position.signed p.quantity p.basis
          else 0) + if c = p.currency then lost else 0) = 0) ↔
          Position.signed (p.quantity - w) (p.basis - lost) - Position.signed p.quantity p.basis +
            lost = 0 := by
        constructor
        · intro h
          simpa [hpays] using h p.currency
        · intro h c
          by_cases hc : c = p.currency <;> simp [hc, hpays, h]
      rw [hone]
      rcases hq.lt_or_gt with hneg | hpos
      · rw [writeOff_short hneg]
        simp only [hneg, hneg.not_gt, false_and, false_or, true_and]
      · rw [writeOff_long hpos]
        simp only [hpos, hpos.not_gt, false_and, or_false, true_and]
    · rw [if_neg hown]
      constructor
      · intro h
        have hlost : lost = 0 := by
          have hc := h currency
          rwa [if_neg (fun hc => hown ⟨hc.1.symm, hc.2⟩), if_pos rfl, zero_add] at hc
        refine ⟨hlost, fun hpays => ?_⟩
        have hc := h p.currency
        rw [if_pos ⟨rfl, hpays⟩, hlost, sub_zero, ite_self, add_zero] at hc
        exact sub_eq_zero.mp hc
      · rintro ⟨rfl, hsame⟩ c
        rw [ite_self, add_zero, sub_zero]
        split_ifs with hc
        exacts [sub_eq_zero.mpr (hsame hc.2), rfl]

theorem writeOffShift_of_balanced {p : Option Position} (h : WriteOffBalanced p currency w lost)
    (c : String) : writeOffShift p currency w lost c = 0 := by
  by_cases hq : ∀ p' ∈ p, p'.quantity ≠ 0
  · exact (writeOffShift_eq_zero hq).mpr h c
  · push Not at hq
    obtain ⟨p', hp', hflat⟩ := hq
    obtain rfl : p = some p' := hp'
    simp only [WriteOffBalanced, hflat, lt_irrefl, false_and, or_self] at h
    split_ifs at h with hown
    obtain ⟨rfl, hsame⟩ := h
    simp only [writeOffShift, Option.elim_some, hflat, sub_zero, ite_self, add_zero]
    split_ifs with hc
    exacts [sub_eq_zero.mpr (hsame hc.2), rfl]

end AlphaLab
