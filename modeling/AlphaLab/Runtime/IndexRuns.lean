/-
  The index of unsettled transactions over runs of the book.

  `runs_indexed`: after any run whose steps settle what is due, or find nothing
  due, the index is what the ledger implies and a snapshot restores the state.
  A step that does neither leaves the two apart (`paid_at_once_not_restored`):
  the replay settles at every exchange, the operations do not.
-/
import AlphaLab.Portfolio.Snapshot
import AlphaLab.Runtime.BookRuns

namespace AlphaLab

open Fallible

variable {s s' : PortfolioState}

/-- A call that settles what is due, or finds nothing due. -/
def KeepsIndex (s : PortfolioState) : PortfolioCall → Prop
  | .exchange ctx r => ∀ held ∈ s.positions.get? r.exchange.assetId, held.quantity ≠ 0 →
      ∀ booking, exchangeBooking ctx s.account.currencyUnits held r = .ok booking →
        booking.KeepsIndex s
  | .amendPayment a => a.KeepsIndex s
  | .amendDelivery a => a.KeepsIndex s
  | _ => True

/-- **Every accepted call keeps the index**, where it settles what is due. -/
theorem apply_indexed {c : PortfolioCall} (h : c.apply s = .ok s') (hc : KeepsIndex s c)
    (hs : Indexed s) : Indexed s' := by
  cases c <;> simp only [PortfolioCall.apply, inPortfolio_ok, map_fst_ok, pure_ok] at h
  case deposit =>
    obtain ⟨_, -, rfl⟩ := applyDeposit_ok h
    exact hs.bookCash rfl _ _ _ _ _
  case withdraw =>
    obtain ⟨_, _, -, -, rfl⟩ := applyWithdrawal_ok h
    exact hs.bookCash rfl _ _ _ _ _
  case convert =>
    obtain ⟨_, h⟩ := h
    obtain ⟨_, _, -, -, -, rfl⟩ := convertCash_ok h
    exact IndexOf.bookCash (hs.bookCash rfl _ _ _ _ _) rfl _ _ _ _ _
  case fill => exact applyFill_indexed h hs
  case updateMarketPrices => exact marked_indexed h hs
  case markChanged =>
    rcases markChanged_ok h with rfl | ⟨held, -, h⟩
    exacts [hs, marked_indexed h hs]
  case recordAccrual => exact h ▸ hs.bookCash rfl _ _ _ _ _
  case closeAccrual => exact h ▸ hs.bookCash rfl _ _ _ _ _
  case cashFlow flow timestamp =>
    obtain ⟨_, _, -, -, rfl⟩ := applyCashFlow_ok h
    have hkind : flow.kind.transactionType.keepsPending = false := by
      cases flow.kind <;> rfl
    exact hs.bookCash hkind _ _ _ _ _
  case split =>
    obtain ⟨_, -, rfl⟩ := applySplit_ok h
    exact hs
  case exchange ctx r =>
    rcases exchangeHolding_ok h with ⟨-, rfl⟩ | ⟨held, booking, hget, hne, hbooking, happly⟩
    · exact hs
    · exact applyExchange_indexed happly (hc held hget hne booking hbooking) hs
  case amendPayment => exact amendPayment_indexed h hc hs
  case amendDelivery =>
    obtain ⟨_, h⟩ := h
    exact amendDelivery_indexed h hc hs

theorem indexed_opened (account : Account) : Indexed (.opened account) := ⟨rfl, rfl⟩

/-- **The index is exactly what the ledger implies** in every book reached from an
    empty one, and a snapshot of the book restores it. -/
theorem runs_indexed {account : Account}
    (h : Runs PortfolioCall.apply KeepsIndex (.opened account) s) :
    s.unsettled = pendingFrom s.ledger ∧ restore (capture s) = s := by
  have hindexed : Indexed s := by
    refine h.invariant (fun t => Indexed t) (indexed_opened account) ?_
    intro t c u ht hc hu
    exact apply_indexed hu hc ht
  exact ⟨hindexed.index, (restore_capture (runs_wellBooked h)).mpr hindexed.index⟩

theorem keepsIndex_exchange {ctx : ExchangeContext} {r : ExchangeRequest}
    (hdue : NoneDue s.unsettled r.timestamp) : KeepsIndex s (.exchange ctx r) := by
  intro held _ _ booking hbooking
  obtain ⟨taken, plan, parts, -, -, -, rfl⟩ := exchangeBooking_ok hbooking
  exact Or.inl hdue

def settlingTrade : PortfolioCall :=
  .fill {
    assetId := "OLD"
    quantity := 10
    price := 10
    commission := 0
    timestamp := 2
    currency := "USD"
    settlesAt := some 10 }

/-- A pending fill and a pending delivery restore. -/
theorem runs_indexed_pending : ∃ s s', bookOf [.deposit 1000 "USD" 1, settlingTrade] = .ok s ∧
    PortfolioCall.apply s (.exchange dollarRun renamedLater) = .ok s' ∧
    s'.unsettled.length = 2 ∧ restore (capture s') = s' := by
  obtain ⟨⟨s, s'⟩, h, hdue, hlength⟩ := exists_ok_of
    (x := do
      let s ← bookOf [.deposit 1000 "USD" 1, settlingTrade]
      let s' ← PortfolioCall.apply s (.exchange dollarRun renamedLater)
      pure (s, s'))
    (fun p => NoneDue p.1.unsettled 3 ∧ p.2.unsettled.length = 2) (by decide +kernel)
  simp only [bind_ok, pure_ok, Prod.mk.injEq] at h
  obtain ⟨_, hbook, _, hexchange, rfl, rfl⟩ := h
  have hstart : Runs PortfolioCall.apply KeepsIndex (.opened dollarAccount) _ :=
    Runs.of_foldlM hbook (by simp [KeepsIndex, settlingTrade])
  exact ⟨_, _, hbook, hexchange, hlength,
    (runs_indexed (hstart.step (keepsIndex_exchange hdue) hexchange)).2⟩

/-- Every unit of `OLD` for twelve dollars. -/
def boughtOut : HoldingExchange where
  assetId := "OLD"
  cashPerUnit := 12
  retainedBasisShare := none
  named := renamed.named
  distinct := by decide
  notOwn := by decide
  cash_nonneg := by norm_num
  delivers := by norm_num
  retained_unit := renamed.retained_unit
  share_nonneg := by norm_num [cashShareOf]
  share_paid := by norm_num

/-- **Cash paid at once settles nothing**: the fill due at 10 is still in the
    index after an exchange paid at 20, and the snapshot restores another state. -/
theorem paid_at_once_not_restored : ∃ s,
    bookOf [.deposit 1000 "USD" 1, settlingTrade,
      .exchange dollarRun { exchange := boughtOut, timestamp := 20 }] = .ok s ∧
    s.unsettled ≠ pendingFrom s.ledger ∧ restore (capture s) ≠ s := by
  obtain ⟨s, hs, hindex, hrestored⟩ := exists_ok_of
    (x := bookOf [.deposit 1000 "USD" 1, settlingTrade,
      .exchange dollarRun { exchange := boughtOut, timestamp := 20 }])
    (fun s => s.unsettled ≠ pendingFrom s.ledger ∧ restore (capture s) ≠ s) (by decide +kernel)
  exact ⟨s, hs, hindex, hrestored⟩

end AlphaLab
