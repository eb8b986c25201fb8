/-
  Runs of the book: every call a portfolio accepts, one after another.

  * `PortfolioCall` is one call of an operation of the book, `apply` its
    dispatch; a run is `Runs PortfolioCall.apply meets`.
-/
import AlphaLab.Portfolio.AmendmentAccounting
import AlphaLab.Runtime.ExchangeSplit

namespace AlphaLab

open Fallible

inductive PortfolioCall where
  | deposit (amount : Decimal) (currency : String) (timestamp : Instant)
  | withdraw (amount : Decimal) (currency : String) (timestamp : Instant)
  | convert (amount : Decimal) (fromCurrency toCurrency : String) (rates : FxRates)
      (timestamp : Instant) (financed : Bool)
  | fill (fill : Fill)
  | updateMarketPrices (prices : Dict String Decimal) (timestamp : Instant)
  | markChanged (prices : Dict String Decimal) (timestamp : Instant) (changed : Option String)
  | recordAccrual (key : String) (amount : Decimal) (currency : String) (timestamp : Instant)
  | closeAccrual (key : String) (amount : Decimal) (currency : String) (timestamp : Instant)
  | cashFlow (flow : CashFlow) (timestamp : Instant)
  | split (split : Split) (timestamp : Instant)
  | exchange (ctx : ExchangeContext) (request : ExchangeRequest)
  | amendPayment (amendment : PaymentAmendment)
  | amendDelivery (amendment : DeliveryAmendment)

namespace PortfolioCall

/-- The state a call takes `s` to. -/
def apply (s : PortfolioState) : PortfolioCall → Except ExchangeRefusal PortfolioState
  | deposit amount currency timestamp => inPortfolio (applyDeposit s amount currency timestamp)
  | withdraw amount currency timestamp => inPortfolio (applyWithdrawal s amount currency timestamp)
  | convert amount fromCurrency toCurrency rates timestamp financed =>
    inPortfolio ((convertCash s amount fromCurrency toCurrency rates timestamp financed).map Prod.fst)
  | fill f => inPortfolio (applyFill s f)
  | updateMarketPrices prices timestamp =>
    inPortfolio (AlphaLab.updateMarketPrices s prices timestamp)
  | markChanged prices timestamp changed =>
    inPortfolio (AlphaLab.markChanged s prices timestamp changed)
  | recordAccrual key amount currency timestamp =>
    pure (AlphaLab.recordAccrual s key amount currency timestamp)
  | closeAccrual key amount currency timestamp =>
    pure (AlphaLab.closeAccrual s key amount currency timestamp)
  | cashFlow flow timestamp => inPortfolio (applyCashFlow s flow timestamp)
  | split sp timestamp => inPortfolio (applySplit s sp timestamp)
  | exchange ctx request => exchangeHolding ctx s request
  | amendPayment a => inPortfolio (AlphaLab.amendPayment s a)
  | amendDelivery a => inPortfolio ((AlphaLab.amendDelivery s a).map Prod.fst)

/-- The calls of trading: cash in and out, conversions, fills, marks, cash flows
    and splits. -/
def trades : PortfolioCall → Bool
  | deposit .. | withdraw .. | convert .. | fill .. | updateMarketPrices .. | markChanged ..
  | cashFlow .. | split .. => true
  | recordAccrual .. | closeAccrual .. | exchange .. | amendPayment .. | amendDelivery .. => false

/-- The calls that book two sides of the identity from one amount. -/
def balanced : PortfolioCall → Bool
  | exchange .. | amendDelivery .. => false
  | _ => true

theorem balanced_of_trades {c : PortfolioCall} (h : c.trades = true) : c.balanced = true := by
  cases c <;> first | rfl | cases h

end PortfolioCall

theorem map_fst_ok {ε α β : Type} {x : Except ε (α × β)} {a : α} :
    x.map Prod.fst = .ok a ↔ ∃ b, x = .ok (a, b) := by
  cases x with
  | error e => simp [Except.map]
  | ok p =>
    obtain ⟨a', b⟩ := p
    simp [Except.map, eq_comm]

variable {s s' : PortfolioState}

theorem markChanged_ok {prices : Dict String Decimal} {timestamp : Instant}
    {changed : Option String} (h : markChanged s prices timestamp changed = .ok s') :
    s' = s ∨ ∃ held : List (String × Position),
      (∀ e ∈ held, s.positions.get? e.1 = some e.2) ∧ marked s held prices timestamp = .ok s' := by
  unfold markChanged at h
  simp only at h
  split_ifs at h
  · exact Or.inl (pure_ok.mp h).symm
  · exact Or.inr ⟨_, markChanged_held s _, h⟩

/-- **A balanced call keeps the gap and the books.** -/
theorem apply_balanced {c : PortfolioCall} (h : c.apply s = .ok s') (hc : c.balanced = true)
    (hwell : WellBooked s.account.currencyUnits s.positions) :
    (∀ currency, gap s' currency = gap s currency) ∧
      WellBooked s'.account.currencyUnits s'.positions := by
  cases c <;> simp only [PortfolioCall.apply, inPortfolio_ok, map_fst_ok, pure_ok] at h
  case deposit =>
    refine ⟨applyDeposit_gap h, ?_⟩
    obtain ⟨_, -, rfl⟩ := applyDeposit_ok h
    exact hwell
  case withdraw =>
    refine ⟨applyWithdrawal_gap h, ?_⟩
    obtain ⟨_, _, -, -, rfl⟩ := applyWithdrawal_ok h
    exact hwell
  case convert =>
    obtain ⟨_, h⟩ := h
    refine ⟨convertCash_gap h, ?_⟩
    obtain ⟨_, _, -, -, -, rfl⟩ := convertCash_ok h
    exact hwell
  case fill => exact ⟨applyFill_gap h hwell, applyFill_wellBooked h hwell⟩
  case updateMarketPrices => exact marked_keeps h (updateMarketPrices_held s) hwell
  case markChanged =>
    rcases markChanged_ok h with rfl | ⟨held, hheld, h⟩
    exacts [⟨fun _ => rfl, hwell⟩, marked_keeps h hheld hwell]
  case recordAccrual key amount currency timestamp =>
    subst h
    refine ⟨fun c => ?_, hwell⟩
    simp only [gap_eq, recordAccrual, netDeposits_bookCash]
    simp
  case closeAccrual key amount currency timestamp =>
    subst h
    refine ⟨fun c => ?_, hwell⟩
    simp only [gap_eq, closeAccrual, netDeposits_bookCash]
    simp
  case cashFlow =>
    refine ⟨applyCashFlow_gap h, ?_⟩
    obtain ⟨_, _, -, -, rfl⟩ := applyCashFlow_ok h
    exact hwell
  case split => exact applySplit_keeps h hwell
  case exchange => cases hc
  case amendPayment =>
    obtain ⟨hpositions, haccount⟩ := amendPayment_positions h
    exact ⟨amendPayment_gap h, by rwa [hpositions, haccount]⟩
  case amendDelivery => cases hc

/-- **Every accepted call keeps the books.** -/
theorem apply_wellBooked {c : PortfolioCall} (h : c.apply s = .ok s')
    (hwell : WellBooked s.account.currencyUnits s.positions) :
    WellBooked s'.account.currencyUnits s'.positions := by
  by_cases hc : c.balanced = true
  · exact (apply_balanced h hc hwell).2
  · cases c <;> simp only [PortfolioCall.balanced, not_true_eq_false] at hc
    case exchange ctx r =>
      rcases exchangeHolding_ok h with ⟨-, rfl⟩ | ⟨held, booking, hget, hne, -, -⟩
      · exact hwell
      · obtain ⟨_, -, hkeeps, -⟩ := exchangeHolding_gap h hget hne
        exact hkeeps hwell
    case amendDelivery a =>
      simp only [PortfolioCall.apply, inPortfolio_ok, map_fst_ok] at h
      obtain ⟨_, h⟩ := h
      exact (amendDelivery_gap h).1 hwell

theorem wellBooked_opened (account : Account) :
    WellBooked (PortfolioState.opened account).account.currencyUnits
      (PortfolioState.opened account).positions := by
  intro asset p hp
  simp [PortfolioState.opened] at hp

theorem runs_wellBooked {account : Account} {meets : PortfolioState → PortfolioCall → Prop}
    (h : Runs PortfolioCall.apply meets (.opened account) s) :
    WellBooked s.account.currencyUnits s.positions := by
  refine h.invariant (fun s => WellBooked s.account.currencyUnits s.positions)
    (wellBooked_opened account) ?_
  intro t c u ht _ hu
  exact apply_wellBooked hu ht

theorem gap_opened (account : Account) (currency : String) :
    gap (.opened account) currency = 0 := by
  simp [gap_eq, PortfolioState.opened, CashLedger.balance, netDeposits, CurrencyAmounts.of]

/-- Runs of balanced calls keep the gap and the books. -/
theorem runs_balanced {meets : PortfolioState → PortfolioCall → Prop}
    (hmeets : ∀ s c, meets s c → c.balanced = true)
    (h : Runs PortfolioCall.apply meets s s')
    (hwell : WellBooked s.account.currencyUnits s.positions) :
    (∀ currency, gap s' currency = gap s currency) ∧
      WellBooked s'.account.currencyUnits s'.positions := by
  refine h.invariant (fun t => (∀ currency, gap t currency = gap s currency) ∧
    WellBooked t.account.currencyUnits t.positions) ⟨fun _ => rfl, hwell⟩ ?_
  intro t c u ht hc hu
  obtain ⟨hgap, hwell'⟩ := apply_balanced hu (hmeets t c hc) ht.2
  exact ⟨fun currency => (hgap currency).trans (ht.1 currency), hwell'⟩

theorem identity_of_balanced {account : Account} {meets : PortfolioState → PortfolioCall → Prop}
    (hmeets : ∀ s c, meets s c → c.balanced = true)
    (h : Runs PortfolioCall.apply meets (.opened account) s) : AccountingIdentity s := by
  rw [accountingIdentity_iff]
  intro currency
  obtain ⟨hgap, -⟩ := runs_balanced hmeets h (wellBooked_opened account)
  rw [hgap, gap_opened]

/-- **The accounting identity of the book**, after every run of trading calls
    from an empty one. -/
theorem trading_keeps_identity {account : Account}
    (h : Runs PortfolioCall.apply (fun _ c => c.trades = true) (.opened account) s) :
    AccountingIdentity s :=
  identity_of_balanced (fun _ _ => PortfolioCall.balanced_of_trades) h

/-! ## A book in dollars -/

def dollarAccount : Account where
  accountId := "A"
  baseCurrency := "USD"
  name := "book"
  createdAt := 0

def bookOf (calls : List PortfolioCall) : Except ExchangeRefusal PortfolioState :=
  calls.foldlM PortfolioCall.apply (.opened dollarAccount)

/-- A trade of `quantity` at `price`, in dollars. -/
def trade (assetId : String) (quantity price : Decimal) (timestamp : Instant) : PortfolioCall :=
  .fill {
    assetId := assetId
    quantity := quantity
    price := price
    commission := 0
    timestamp := timestamp
    currency := "USD" }

def dollarRun : ExchangeContext where
  currency := "USD"

/-- Every unit of `OLD` for one of `NEW`, with all of its basis. -/
def renamed : HoldingExchange where
  assetId := "OLD"
  legs := [{ assetId := "NEW", ratio := 1, basisShare := 1, named := by decide,
             ratio_pos := one_positive, share_nonneg := by norm_num, share_le_one := by norm_num,
             inLieu_nonneg := no_minimum }]
  named := by decide
  distinct := by decide
  notOwn := by decide
  cash_nonneg := le_rfl
  delivers := by simp
  retained_unit := by simp
  share_nonneg := by norm_num [cashShareOf]
  share_paid := by norm_num [cashShareOf]

/-- The exchange of `OLD` for `NEW`, delivered at 20. -/
def renamedLater : ExchangeRequest where
  exchange := renamed
  timestamp := 3
  deliversAt := some (Dict.ofList [("NEW", 20)])

/-- `quantity` units of `OLD` at `price`, exchanged for as many of `NEW`, delivered at 20. -/
def owedDelivery (quantity price : Decimal) : List PortfolioCall :=
  [.deposit 1000 "USD" 1, trade "OLD" quantity price 2, .exchange dollarRun renamedLater]

/-- The identity holds of a book that bought at an odd price, sold short and was marked. -/
theorem trading_keeps_identity_mixed :
    ∃ s, bookOf [.deposit 1000 "USD" 1, trade "OLD" 10 10.001 2, trade "OLD" (-25) 10.333 3,
        .updateMarketPrices (Dict.ofList [("OLD", 9.7)]) 4] = .ok s ∧ AccountingIdentity s := by
  obtain ⟨s, hs, -⟩ := exists_ok_of (x := bookOf [.deposit 1000 "USD" 1, trade "OLD" 10 10.001 2,
    trade "OLD" (-25) 10.333 3, .updateMarketPrices (Dict.ofList [("OLD", 9.7)]) 4])
    (fun _ => True) (by decide +kernel)
  refine ⟨s, hs, trading_keeps_identity (Runs.of_foldlM hs ?_)⟩
  simp [trade, PortfolioCall.trades]

end AlphaLab
