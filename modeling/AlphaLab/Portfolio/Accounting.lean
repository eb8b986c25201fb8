/-
  The accounting identity of the book.

  * `AccountingIdentity s`: per currency, cash and the positions' carrying
    values are the net deposits, the realized and unrealized P&L, less the
    commissions.
  * `gap s c` is the difference of the two sides; by `gap_eq` it is cash and
    signed bases against net deposits, realized P&L and commissions, so marks
    do not enter it.
  * `WellBooked s`: every position is kept at its account's minor unit, under
    its own asset.  It is what makes a fill's cash and its basis the same money.
-/
import AlphaLab.Portfolio.Exchange

namespace AlphaLab

open Fallible

/-! ## The identity -/

/-- What a transaction adds to the deposits of `currency`. -/
def depositOf (currency : String) (t : Transaction) : Decimal :=
  if t.type = .deposit ∧ t.currency = currency then t.quantity else 0

/-- What a transaction adds to the withdrawals of `currency`; its quantity is negative. -/
def withdrawalOf (currency : String) (t : Transaction) : Decimal :=
  if t.type = .withdrawal ∧ t.currency = currency then -t.quantity else 0

/-- Deposits less withdrawals of `currency` in a ledger. -/
def netDeposits (ledger : List Transaction) (currency : String) : Decimal :=
  (ledger.map (depositOf currency)).sum - (ledger.map (withdrawalOf currency)).sum

/-- What the positions of `currency` add to equity beyond cash. -/
def carrying (positions : Dict String Position) (currency : String) : Decimal :=
  positions.sum fun _ p => if p.currency = currency then p.carryingValue else 0

/-- The open P&L of the positions of `currency`. -/
def unrealized (positions : Dict String Position) (currency : String) : Decimal :=
  positions.sum fun _ p => if p.currency = currency then p.unrealizedPnl else 0

/-- The signed bases of the positions of `currency`. -/
def basisOf (currency : String) (p : Position) : Decimal :=
  if p.currency = currency then p.signedBasis else 0

/-- `equity == deposits - withdrawals + realized + unrealized - commissions`,
    per currency. -/
def AccountingIdentity (s : PortfolioState) : Prop :=
  ∀ c, s.cash.balance c + carrying s.positions c =
    netDeposits s.ledger c + s.realizedPnl.of c + unrealized s.positions c - s.commissionPaid.of c

def gap (s : PortfolioState) (c : String) : Decimal :=
  s.cash.balance c + carrying s.positions c -
    (netDeposits s.ledger c + s.realizedPnl.of c + unrealized s.positions c - s.commissionPaid.of c)

theorem accountingIdentity_iff {s : PortfolioState} : AccountingIdentity s ↔ ∀ c, gap s c = 0 :=
  forall_congr' fun _ => sub_eq_zero.symm

theorem carrying_sub_unrealized (positions : Dict String Position) (c : String) :
    carrying positions c - unrealized positions c = positions.sum fun _ p => basisOf c p := by
  simp only [carrying, unrealized, Dict.sum]
  induction positions.entries with
  | nil => simp
  | cons e l ih =>
    simp only [List.map_cons, List.sum_cons]
    rw [← ih, basisOf, ← Position.carryingValue_sub_unrealizedPnl]
    split_ifs <;> ring

variable (s : PortfolioState) (ledger : List Transaction) (c : String)

/-- **The marks do not enter the gap.** -/
theorem gap_eq :
    gap s c = s.cash.balance c + (s.positions.sum fun _ p => basisOf c p) -
      (netDeposits s.ledger c + s.realizedPnl.of c - s.commissionPaid.of c) := by
  rw [gap, ← carrying_sub_unrealized]
  ring

def currencies (s : PortfolioState) : List String :=
  s.cash.balances.keys ++ s.positions.values.map (·.currency) ++ s.ledger.map (·.currency) ++
    s.realizedPnl.amounts.keys ++ s.commissionPaid.amounts.keys

theorem sum_map_eq_zero {α : Type} {l : List α} {f : α → Decimal} (h : ∀ a ∈ l, f a = 0) :
    (l.map f).sum = 0 := by
  rw [List.map_congr_left h]
  simp

theorem gap_of_notMem {s : PortfolioState} {c : String} (h : c ∉ currencies s) : gap s c = 0 := by
  simp only [currencies, List.mem_append, not_or] at h
  obtain ⟨⟨⟨⟨hcash, hpos⟩, hledger⟩, hreal⟩, hcomm⟩ := h
  have hget : ∀ d : Dict String Decimal, c ∉ d.keys → (d.get? c).getD 0 = 0 := by
    intro d hd
    rw [(d.get?_eq_none).mpr hd, Option.getD_none]
  have hbases : (s.positions.sum fun _ p => basisOf c p) = 0 := by
    refine sum_map_eq_zero fun e he => if_neg fun hc => hpos ?_
    exact List.mem_map.mpr ⟨e.2, List.mem_map.mpr ⟨e, he, rfl⟩, hc⟩
  have hother : ∀ t ∈ s.ledger, t.currency ≠ c := fun t ht hc =>
    hledger (List.mem_map.mpr ⟨t, ht, hc⟩)
  have hin : (s.ledger.map (depositOf c)).sum = 0 :=
    sum_map_eq_zero fun t ht => if_neg fun hc => hother t ht hc.2
  have hout : (s.ledger.map (withdrawalOf c)).sum = 0 :=
    sum_map_eq_zero fun t ht => if_neg fun hc => hother t ht hc.2
  have hnet : netDeposits s.ledger c = 0 := by rw [netDeposits, hin, hout, sub_zero]
  rw [gap_eq, CashLedger.balance, CurrencyAmounts.of, CurrencyAmounts.of, hget _ hcash,
    hget _ hreal, hget _ hcomm, hbases, hnet]
  norm_num

/-- The identity can be checked: only the currencies held matter. -/
instance (s : PortfolioState) : Decidable (AccountingIdentity s) :=
  decidable_of_iff (∀ c ∈ currencies s, gap s c = 0) <| by
    rw [accountingIdentity_iff]
    refine ⟨fun h c => ?_, fun h c _ => h c⟩
    by_cases hc : c ∈ currencies s
    exacts [h c hc, gap_of_notMem hc]

/-! ## How the books are kept -/

/-- `p` is kept at `units`' minor unit of its currency. -/
def BookedAt (units : CurrencyUnits) (p : Position) : Prop :=
  ∃ n, p.minorUnits = some n ∧ units.minorUnits p.currency = some n

variable {units : CurrencyUnits} {p : Position}

theorem BookedAt.decimals (h : BookedAt units p) :
    units.minorUnits p.currency = some p.decimals := by
  obtain ⟨n, hp, hu⟩ := h
  rw [hu]
  simp [Position.decimals, hp]

variable {p' : Position}

theorem BookedAt.of_terms (h : BookedAt units p) (ht : p.SameTerms p') : BookedAt units p' := by
  obtain ⟨n, hp, hu⟩ := h
  obtain ⟨-, hc, hm, -⟩ := ht
  exact ⟨n, hm.trans hp, hc ▸ hu⟩

def WellBooked (units : CurrencyUnits) (positions : Dict String Position) : Prop :=
  ∀ asset p, positions.get? asset = some p → p.assetId = asset ∧ BookedAt units p

variable {positions : Dict String Position}

theorem wellBooked_set (h : WellBooked units positions) {asset : String} (ha : p.assetId = asset)
    (hp : BookedAt units p) : WellBooked units (positions.set asset p) := by
  intro a q hq
  by_cases haa : a = asset
  · subst haa
    rw [Dict.get?_set_self] at hq
    exact Option.some.inj hq ▸ ⟨ha, hp⟩
  · rw [Dict.get?_set_of_ne _ _ haa] at hq
    exact h a q hq

theorem wellBooked_terms (h : WellBooked units positions) {asset : String}
    (hget : positions.get? asset = some p) (ht : p.SameTerms p') :
    WellBooked units (positions.set asset p') := by
  obtain ⟨ha, hb⟩ := h _ _ hget
  exact wellBooked_set h (ht.1.trans ha) (hb.of_terms ht)

theorem wellBooked_delete (h : WellBooked units positions) (asset : String) :
    WellBooked units (positions.delete asset) := by
  intro a q hq
  rw [Dict.get?_delete] at hq
  split_ifs at hq
  exact h a q hq

theorem netDeposits_append (t : Transaction) (c : String) :
    netDeposits (ledger ++ [t]) c =
      netDeposits ledger c + (depositOf c t - withdrawalOf c t) := by
  simp only [netDeposits, List.map_append, List.map_cons, List.map_nil, List.sum_append,
    List.sum_cons, List.sum_nil, add_zero]
  ring

theorem netDeposits_other {t : Transaction} (hd : t.type ≠ .deposit) (hw : t.type ≠ .withdrawal) :
    netDeposits (ledger ++ [t]) c = netDeposits ledger c := by
  simp [netDeposits_append, depositOf, withdrawalOf, hd, hw]

theorem netDeposits_bookCash (type : TransactionType) (assetId : String) (quantity : Decimal)
    (currency : String) (timestamp : Instant) (metadata : Metadata) (c : String) :
    netDeposits (bookCash s ledger type assetId quantity currency timestamp metadata) c =
      netDeposits ledger c +
        if (type = .deposit ∨ type = .withdrawal) ∧ c = currency then quantity else 0 := by
  rw [bookCash, netDeposits_append]
  simp only [depositOf, withdrawalOf]
  cases type <;> by_cases h : c = currency <;> simp [h, eq_comm]
  all_goals simp [Ne.symm h]

theorem basisOf_sumAt (positions : Dict String Position) (asset c : String) :
    positions.sumAt (fun _ p => basisOf c p) asset =
      ((positions.get? asset).map (basisOf c)).getD 0 := by
  rw [Dict.sumAt]
  cases positions.get? asset <;> rfl

theorem basisOf_terms (ht : p.SameTerms p') (c : String) :
    basisOf c p' = basisOf c p + if c = p.currency then p'.signedBasis - p.signedBasis else 0 := by
  obtain ⟨-, hc, -, -⟩ := ht
  simp only [basisOf, hc, eq_comm (a := p.currency)]
  split_ifs <;> ring

end AlphaLab
