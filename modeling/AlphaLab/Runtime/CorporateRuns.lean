/-
  Corporate actions and the accounting identity.

  * `exchange_keeps_identity_iff`: an exchange in the holding's own currency
    keeps the identity exactly where its parts book their shares of the basis.
  * `amendments_keep_identity`: amended payments always keep it, and amended
    deliveries do where the units written off balance.

  Both fail in general (`halves_lose_a_cent`, `failed_short_delivery`): the parts
  of a basis are rounded apart, and units a short owed are written off with a
  long's sign.
-/
import AlphaLab.Runtime.BookRuns

namespace AlphaLab

open Fallible

variable {s s' : PortfolioState}

/-! ## Exchanges -/

/-- The parts of an exchange book exactly their shares of the basis, in every
    currency: what rounding adds to one it takes from another. -/
def SplitBalances (ctx : ExchangeContext) (s : PortfolioState) (held : Position)
    (r : ExchangeRequest) : Prop :=
  ∃ taken, takenPart ctx s.account.currencyUnits held r = .ok taken ∧
    ∀ c, splitResidue s.account.currencyUnits s.positions
      (planning ctx s.account.currencyUnits r.exchange taken.exchanged r.timestamp r.rates)
      r.exchange held (taken.kept.getD (0, 0)) c = 0

/-- Two legs of a half each, for every unit of `OLD`. -/
def halves : HoldingExchange where
  assetId := "OLD"
  legs := [
    { assetId := "LEFT", ratio := 1, basisShare := 0.5, named := by decide,
      ratio_pos := one_positive, share_nonneg := by norm_num, share_le_one := by norm_num,
      inLieu_nonneg := no_minimum },
    { assetId := "RIGHT", ratio := 1, basisShare := 0.5, named := by decide,
      ratio_pos := one_positive, share_nonneg := by norm_num, share_le_one := by norm_num,
      inLieu_nonneg := no_minimum }]
  retainedBasisShare := none
  cashPerUnit := 0
  named := renamed.named
  distinct := by decide
  notOwn := by decide
  cash_nonneg := renamed.cash_nonneg
  delivers := by simp
  retained_unit := renamed.retained_unit
  share_nonneg := by norm_num [cashShareOf]
  share_paid := by norm_num [cashShareOf]

/-- Ten units of `OLD`, held at a basis of 100.01. -/
def oddBasis : List PortfolioCall := [.deposit 1000 "USD" 1, trade "OLD" 10 10.001 2]

theorem halves_inOwnCurrency : InOwnCurrency dollarRun halves "USD" :=
  ⟨fun _ _ _ h => by simp [ExchangeContext.declared, dollarRun] at h, fun h => absurd rfl h⟩

theorem exchanged_oddBasis : ∃ s s' held, bookOf oddBasis = .ok s ∧ AccountingIdentity s ∧
    s.positions.get? "OLD" = some held ∧ held.quantity ≠ 0 ∧
    InOwnCurrency dollarRun halves held.currency ∧
    exchangeHolding dollarRun s { exchange := halves, timestamp := 3 } = .ok s' ∧
    ¬ AccountingIdentity s' := by
  obtain ⟨⟨s, s'⟩, h, hidentity, hlost, hheld⟩ := exists_ok_of
    (x := do
      let s ← bookOf oddBasis
      let s' ← exchangeHolding dollarRun s { exchange := halves, timestamp := 3 }
      pure (s, s'))
    (fun p => AccountingIdentity p.1 ∧ ¬ AccountingIdentity p.2 ∧
      (p.1.positions.get? "OLD").any (fun held => held.quantity ≠ 0 ∧ held.currency = "USD"))
    (by decide +kernel)
  simp only [bind_ok, pure_ok, Prod.mk.injEq] at h
  obtain ⟨_, hs, _, hs', rfl, rfl⟩ := h
  obtain ⟨held, hget, hheld⟩ := (Option.any_eq_true _ _).mp hheld
  obtain ⟨hne, hcur⟩ := of_decide_eq_true hheld
  exact ⟨_, _, held, hs, hidentity, hget, hne, hcur ▸ halves_inOwnCurrency, hs', hlost⟩

/-- An amended delivery writes off units whose basis the position and the
    realized P&L lose alike. -/
def BalancesWriteOff (s : PortfolioState) (a : DeliveryAmendment) : Prop :=
  ∀ d ∈ deliveryOf s a, writtenOff a d ≠ 0 →
    WriteOffBalanced (s.positions.get? a.assetId) d.original.currency (writtenOff a d)
      (lostBasis a d)

instance (s : PortfolioState) (a : DeliveryAmendment) : Decidable (BalancesWriteOff s a) :=
  inferInstanceAs (Decidable (∀ d ∈ deliveryOf s a, _))

theorem amendDelivery_keeps {a : DeliveryAmendment} {parts : List (String × Decimal)}
    (h : amendDelivery s a = .ok (s', parts)) (hbal : BalancesWriteOff s a) (c : String) :
    gap s' c = gap s c := by
  rw [(amendDelivery_gap h).2 c]
  cases hd : deliveryOf s a with
  | none => simp
  | some d =>
    rw [Option.elim_some]
    split_ifs with hw
    · rw [add_zero]
    · rw [writeOffShift_of_balanced (hbal d hd hw), add_zero]

def AmendsBalanced (s : PortfolioState) : PortfolioCall → Prop
  | .amendPayment _ | .fill _ | .updateMarketPrices .. | .markChanged .. => True
  | .amendDelivery a => BalancesWriteOff s a
  | _ => False

theorem amendsBalanced_gap {c : PortfolioCall} (h : c.apply s = .ok s') (hc : AmendsBalanced s c)
    (hwell : WellBooked s.account.currencyUnits s.positions) (currency : String) :
    gap s' currency = gap s currency := by
  by_cases hbal : c.balanced = true
  · exact (apply_balanced h hbal hwell).1 currency
  · cases c <;> simp only [PortfolioCall.balanced, not_true_eq_false] at hbal
    case exchange => exact hc.elim
    case amendDelivery a =>
      simp only [PortfolioCall.apply, inPortfolio_ok, map_fst_ok] at h
      obtain ⟨_, h⟩ := h
      exact amendDelivery_keeps h hc currency

theorem runs_amendsBalanced (h : Runs PortfolioCall.apply AmendsBalanced s s')
    (hwell : WellBooked s.account.currencyUnits s.positions) (currency : String) :
    gap s' currency = gap s currency := by
  refine (h.invariant (fun t => WellBooked t.account.currencyUnits t.positions ∧
    gap t currency = gap s currency) ⟨hwell, rfl⟩ ?_).2
  intro t c u ht hc hu
  exact ⟨apply_wellBooked hu ht.1, (amendsBalanced_gap hu hc ht.1 currency).trans ht.2⟩

/-- **Amendments keep the accounting identity** of any book reached, interleaved
    with fills and marks, where the deliveries amended balance. -/
theorem amendments_keep_identity {account : Account}
    (hreached : Runs PortfolioCall.apply (fun _ _ => True) (.opened account) s)
    (hs : AccountingIdentity s) (h : Runs PortfolioCall.apply AmendsBalanced s s') :
    AccountingIdentity s' := by
  rw [accountingIdentity_iff] at hs ⊢
  intro currency
  rw [runs_amendsBalanced h (runs_wellBooked hreached), hs]

/-- The issuer's word that the delivery of `NEW` failed. -/
def failedDelivery : DeliveryAmendment where
  holding := "OLD"
  effectiveAt := 3
  assetId := "NEW"
  change := .failed
  timestamp := 5

theorem amendments_keep_identity_long : ∃ s s', bookOf (owedDelivery 10 10) = .ok s ∧
    PortfolioCall.apply s (.amendDelivery failedDelivery) = .ok s' ∧ AccountingIdentity s' := by
  obtain ⟨⟨s, s'⟩, h, hs, hbal⟩ := exists_ok_of
    (x := do
      let s ← bookOf (owedDelivery 10 10)
      let s' ← PortfolioCall.apply s (.amendDelivery failedDelivery)
      pure (s, s'))
    (fun p => AccountingIdentity p.1 ∧ BalancesWriteOff p.1 failedDelivery) (by decide +kernel)
  simp only [bind_ok, pure_ok, Prod.mk.injEq] at h
  obtain ⟨_, hbook, _, hamend, rfl, rfl⟩ := h
  have hreached : Runs PortfolioCall.apply (fun _ _ => True) (.opened dollarAccount) _ :=
    Runs.of_foldlM hbook (by simp)
  have hmeets : AmendsBalanced _ (.amendDelivery failedDelivery) := hbal
  exact ⟨_, _, hbook, hamend, amendments_keep_identity hreached hs (Runs.refl.step hmeets hamend)⟩

/-- **A short's failed delivery breaks the identity**: its basis is lost with a
    long's sign. -/
theorem failed_short_delivery : ∃ s s', bookOf (owedDelivery (-10) 10) = .ok s ∧
    AccountingIdentity s ∧ PortfolioCall.apply s (.amendDelivery failedDelivery) = .ok s' ∧
    ¬ AccountingIdentity s' := by
  obtain ⟨⟨s, s'⟩, h, hs, hs'⟩ := exists_ok_of
    (x := do
      let s ← bookOf (owedDelivery (-10) 10)
      let s' ← PortfolioCall.apply s (.amendDelivery failedDelivery)
      pure (s, s'))
    (fun p => AccountingIdentity p.1 ∧ ¬ AccountingIdentity p.2) (by decide +kernel)
  simp only [bind_ok, pure_ok, Prod.mk.injEq] at h
  obtain ⟨_, hbook, _, hamend, rfl, rfl⟩ := h
  exact ⟨_, _, hbook, hs, hamend, hs'⟩

end AlphaLab
