/-
  Whole money in every book reached.

  `runs_whole`: after any run from an empty book every amount of money is a
  whole number of its currency's minor units, where each exchange's legs join
  holdings their bases are whole in and each amended delivery writes off a whole
  basis.  The second is no matter of course (`corrected_delivery_not_whole`): a
  share of a basis is not rounded before it is realized.
-/
import AlphaLab.Portfolio.WholeMoney
import AlphaLab.Runtime.BookRuns

namespace AlphaLab

open Fallible

variable {s s' : PortfolioState}

/-- Each leg that joins a holding carries a basis whole in that holding's
    currency, once rounded in its own. -/
def JoinsWhole (ctx : ExchangeContext) (s : PortfolioState) (r : ExchangeRequest) : Prop :=
  ∀ held ∈ s.positions.get? r.exchange.assetId, ∀ taken,
    takenPart ctx s.account.currencyUnits held r = .ok taken →
    let p := planning ctx s.account.currencyUnits r.exchange taken.exchanged r.timestamp r.rates
    ∀ leg ∈ r.exchange.legs, p.whole leg ≠ 0 → ∀ basis,
      p.convert (p.carriedByWhole leg) p.source (p.currencyOf leg) = .ok basis →
      ∀ e ∈ s.positions.get? leg.assetId, e.quantity ≠ 0 →
        WholeIn s.account.currencyUnits e.currency
          (moneyOf s.account.currencyUnits basis (p.currencyOf leg))

theorem takenPart_kept_whole {ctx : ExchangeContext} {units : CurrencyUnits} {held : Position}
    {r : ExchangeRequest} {taken : ExchangedPart} (h : takenPart ctx units held r = .ok taken)
    (hbasis : WholeIn units held.currency held.basis) :
    WholeIn units held.currency (taken.kept.getD (0, 0)).2 := by
  unfold takenPart at h
  cases hpart : r.part with
  | none =>
    rw [hpart] at h
    rw [← pure_ok.mp h]
    exact hbasis.zero
  | some part =>
    simp only [hpart, exchangedPart] at h
    split at h
    · cases h
    · split_ifs at h
      · rw [← pure_ok.mp h]
        exact hbasis.zero
      · simp only [bind_ok, pure_ok, inPortfolio_ok] at h
        obtain ⟨basis, hm, rfl⟩ := h
        exact (hbasis.sub (wholeIn_money hm)).inContext

/-- **An exchange books whole money**, where its legs join whole. -/
theorem exchangeHolding_whole {ctx : ExchangeContext} {r : ExchangeRequest}
    (h : exchangeHolding ctx s r = .ok s') (hjoins : JoinsWhole ctx s r) (hs : WholeBook s) :
    WholeBook s' := by
  rcases exchangeHolding_ok h with ⟨-, rfl⟩ | ⟨held, booking, hget, hne, hbooking, happly⟩
  · exact hs
  · obtain ⟨taken, plan, parts, htaken, hplan, -, rfl⟩ := exchangeBooking_ok hbooking
    obtain ⟨hdel, hnd, -⟩ := exchangePlan_legs hplan
    refine applyExchange_whole happly hget ?_ hnd ?_
      (takenPart_kept_whole htaken (hs.positions _ _ hget).1) hs
    · intro leg hleg
      obtain ⟨_, -, hdelivers⟩ := hdel leg hleg
      exact hdelivers.some_units
    · intro holding hholding e he hq
      obtain ⟨leg, hleg, hdelivers⟩ := hdel holding hholding
      rw [hdelivers.asset] at he
      rw [hdelivers.currency]
      exact hjoins held hget taken htaken leg hleg hdelivers.some_whole _ hdelivers.basis e he hq

/-- A call whose money, where nothing rounds it, is whole already. -/
def KeepsWhole (s : PortfolioState) : PortfolioCall → Prop
  | .exchange ctx r => JoinsWhole ctx s r
  | .amendDelivery a => WritesOffWhole s a
  | _ => True

/-- **Every accepted call books whole money.** -/
theorem apply_whole {c : PortfolioCall} (h : c.apply s = .ok s') (hc : KeepsWhole s c)
    (hs : WholeBook s) (hwell : WellBooked s.account.currencyUnits s.positions) : WholeBook s' := by
  cases c <;> simp only [PortfolioCall.apply, inPortfolio_ok, map_fst_ok, pure_ok] at h
  case deposit => exact applyDeposit_whole h hs
  case withdraw => exact applyWithdrawal_whole h hs
  case convert =>
    obtain ⟨_, h⟩ := h
    exact convertCash_whole h hs
  case fill => exact applyFill_whole h hs hwell
  case updateMarketPrices => exact marked_whole h (updateMarketPrices_held s) hs hwell
  case markChanged =>
    rcases markChanged_ok h with rfl | ⟨held, hheld, h⟩
    exacts [hs, marked_whole h hheld hs hwell]
  case recordAccrual =>
    subst h
    exact { hs with ledger := hs.ledger.append_other (by simp) }
  case closeAccrual =>
    subst h
    exact { hs with ledger := hs.ledger.append_other (by simp) }
  case cashFlow => exact applyCashFlow_whole h hs
  case split => exact applySplit_whole h hs
  case exchange => exact exchangeHolding_whole h hc hs
  case amendPayment => exact amendPayment_whole h hs
  case amendDelivery =>
    obtain ⟨_, h⟩ := h
    exact amendDelivery_whole h hc hs

theorem wholeBook_opened (account : Account) : WholeBook (.opened account) := by
  constructor
  case ledger =>
    intro t ht
    simp [PortfolioState.opened] at ht
  all_goals
    intro c x hx
    simp [PortfolioState.opened] at hx

/-- **Money is a whole number of minor units in every book reached** from an
    empty one, over every currency and every declared unit. -/
theorem runs_whole {account : Account}
    (h : Runs PortfolioCall.apply KeepsWhole (.opened account) s) : WholeBook s := by
  refine (h.invariant (fun t => WholeBook t ∧ WellBooked t.account.currencyUnits t.positions)
    ⟨wholeBook_opened account, wellBooked_opened account⟩ ?_).1
  intro t c u ht hc hu
  exact ⟨apply_whole hu hc ht.1 ht.2, apply_wellBooked hu ht.2⟩

/-- The issuer's word that `units` of `NEW` are delivered. -/
def correctedDelivery (units : Decimal) : DeliveryAmendment where
  holding := "OLD"
  effectiveAt := 3
  assetId := "NEW"
  change := .corrected
  timestamp := 5
  units := some units

/-- A book whose exchange joins nothing, and whose delivery fails, is whole. -/
theorem runs_whole_corrected : ∃ s s' s'',
    bookOf [.deposit 1000 "USD" 1, trade "OLD" 10 10.001 2] = .ok s ∧
    PortfolioCall.apply s (.exchange dollarRun renamedLater) = .ok s' ∧
    PortfolioCall.apply s' (.amendDelivery (correctedDelivery 0)) = .ok s'' ∧ WholeBook s'' := by
  obtain ⟨⟨s, s', s''⟩, h, hnone, hoff⟩ := exists_ok_of
    (x := do
      let s ← bookOf [.deposit 1000 "USD" 1, trade "OLD" 10 10.001 2]
      let s' ← PortfolioCall.apply s (.exchange dollarRun renamedLater)
      let s'' ← PortfolioCall.apply s' (.amendDelivery (correctedDelivery 0))
      pure (s, s', s''))
    (fun p => p.1.positions.get? "NEW" = none ∧ WritesOffWhole p.2.1 (correctedDelivery 0))
    (by decide +kernel)
  simp only [bind_ok, pure_ok, Prod.mk.injEq] at h
  obtain ⟨_, hbook, _, hexchange, _, hamend, rfl, rfl, rfl⟩ := h
  rename_i s s' s''
  have hstart : Runs PortfolioCall.apply KeepsWhole (.opened dollarAccount) s :=
    Runs.of_foldlM hbook (by simp [KeepsWhole, trade])
  have hjoins : KeepsWhole s (.exchange dollarRun renamedLater) := by
    intro held _ taken _ p leg hleg _ basis _ e he
    rw [List.mem_singleton.mp hleg, hnone] at he
    cases he
  have hwrites : KeepsWhole s' (.amendDelivery (correctedDelivery 0)) := hoff
  exact ⟨s, s', s'', hbook, hexchange, hamend,
    runs_whole ((hstart.step hjoins hexchange).step hwrites hamend)⟩

/-- **A share of a basis is not whole**: of three units at 100.00, one written
    off realizes 33.33…, and no cent. -/
theorem corrected_delivery_not_whole : ∃ s,
    bookOf (owedDelivery 3 33.335 ++ [.amendDelivery (correctedDelivery 2)]) = .ok s ∧
    ¬ WholeBook s := by
  obtain ⟨s, hs, hnot⟩ := exists_ok_of
    (x := bookOf (owedDelivery 3 33.335 ++ [.amendDelivery (correctedDelivery 2)]))
    (fun s => ¬ WholeIn s.account.currencyUnits "USD" (s.realizedPnl.of "USD") ∧
      "USD" ∈ s.realizedPnl.amounts.keys)
    (by decide +kernel)
  refine ⟨s, hs, fun hwhole => hnot.1 ?_⟩
  obtain ⟨x, hx⟩ := (Dict.mem_keys_iff _).mp hnot.2
  rw [CurrencyAmounts.of, hx]
  exact hwhole.realized _ _ hx

end AlphaLab
