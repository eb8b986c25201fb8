/-
  One holding (`portfolio/position.py`) and the economics it is booked by
  (`conventions/economics.py`, `conventions/lot.py`).

  * `Position.applyFill`, `settle`, `split` and `updateMarketPrice` are the
    transitions; `rebased` rebuilds a position from a quantity and a basis.
  * `signedBasis` is what a position adds to equity beyond its unrealized P&L
    (`carryingValue_sub_unrealizedPnl`): the basis of a fully paid long, minus
    that of a short, nothing for one whose gains settle as cash.
-/
import AlphaLab.Portfolio.Money

namespace AlphaLab

/-! ## Economics -/

inductive SettlementModel where
  | cashEquity
  | futuresVariation
  | optionPremium
  | perpetual
deriving DecidableEq

/-- Whether the trade itself exchanges the position's value for cash. -/
def SettlementModel.paysNotional : SettlementModel → Bool
  | cashEquity | optionPremium => true
  | futuresVariation | perpetual => false

structure LotSpecification where
  lotSize : Decimal
  minimumQuantity : Decimal
  lotSize_pos : 0 < lotSize
  minimumQuantity_pos : 0 < minimumQuantity
  minimum_whole : Rounding.OnGrid lotSize minimumQuantity

instance : DecidableEq LotSpecification := fun a b =>
  decidable_of_iff (a.lotSize = b.lotSize ∧ a.minimumQuantity = b.minimumQuantity)
    (by cases a; cases b; simp)

structure InstrumentEconomics where
  multiplier : Decimal
  settlement : SettlementModel
  lot : Option LotSpecification
  minimumNotional : Option Decimal
  allowsNegativePrices : Bool
  multiplier_pos : 0 < multiplier
  minimumNotional_nonneg : ∀ m ∈ minimumNotional, 0 ≤ m

instance : DecidableEq InstrumentEconomics := fun a b =>
  decidable_of_iff (a.multiplier = b.multiplier ∧ a.settlement = b.settlement ∧ a.lot = b.lot ∧
      a.minimumNotional = b.minimumNotional ∧ a.allowsNegativePrices = b.allowsNegativePrices)
    (by cases a; cases b; simp)

theorem no_minimum : ∀ m ∈ (none : Option Decimal), 0 ≤ m := by simp

/-- `CASH_EQUITY`: a fully paid unit with a multiplier of one. -/
def cashEquity : InstrumentEconomics where
  multiplier := 1
  settlement := .cashEquity
  lot := none
  minimumNotional := none
  allowsNegativePrices := false
  multiplier_pos := one_positive
  minimumNotional_nonneg := no_minimum

/-- Whether `price` is one the instrument can trade or be marked at. -/
def InstrumentEconomics.admitsPrice (e : InstrumentEconomics) (price : Decimal) : Bool :=
  e.allowsNegativePrices || decide (0 < price)

/-! ## Positions -/

theorem no_units : ∀ n ∈ (none : Option ℕ), n ≤ maxMinorUnits := by simp

/-- An immutable position for a single asset: positive quantity long, negative
    short.  `costBasis` is the authoritative money figure. -/
structure Position where
  assetId : String
  quantity : Decimal
  averageCost : Decimal
  marketPrice : Decimal
  realizedPnl : Decimal
  currency : String
  lastUpdated : Instant
  costBasis : Option Decimal
  openedAt : Option Instant
  minorUnits : Option ℕ
  economics : Option InstrumentEconomics
  minorUnits_le : ∀ n ∈ minorUnits, n ≤ maxMinorUnits
  /-- The decimals of its currency are stated or ISO's, so its money can be read. -/
  unitKnown : (minorUnits.or (iso4217MinorUnits currency)).isSome
deriving DecidableEq

namespace Position

variable (p : Position)

def decimals : ℕ := (p.minorUnits.or (iso4217MinorUnits p.currency)).get p.unitKnown

/-- Value per unit of price per unit of quantity; one for a fully paid unit. -/
def multiplier : Decimal := p.economics.elim 1 (·.multiplier)

/-- Whether a trade in the position exchanges its value for cash. -/
def paysNotional : Bool := p.economics.elim true (·.settlement.paysNotional)

/-- `amount` per unit, times the multiplier, untouched for a multiplier of one. -/
def scaled (amount : Decimal) : Decimal :=
  if p.multiplier = 1 then amount else multiply amount p.multiplier

/-- `amount` rounded half even to the minor unit of the position's currency. -/
def money (amount : Decimal) : Decimal := quantize p.decimals amount

def basis : Decimal :=
  p.costBasis.getD (p.money (p.scaled (multiply |p.quantity| p.averageCost)))

/-- Signed `quantity * market_price * multiplier`, rounded once to money. -/
def marketValue : Decimal := p.money (p.scaled (multiply p.quantity p.marketPrice))

/-- Open P&L: the difference between the market value and the cost basis. -/
def unrealizedPnl : Decimal :=
  if p.quantity = 0 then 0
  else if 0 < p.quantity then p.marketValue - p.basis
  else p.marketValue + p.basis

def carryingValue : Decimal := if p.paysNotional then p.marketValue else p.unrealizedPnl

/-- The position marked at `price`. -/
def updateMarketPrice (price : Decimal) (timestamp : Instant) : Position :=
  { p with marketPrice := price, lastUpdated := timestamp }

/-- The position rebuilt from a quantity and basis, opened at `openedAt`. -/
def rebasedAt (quantity basis realizedTotal price : Decimal) (timestamp : Instant)
    (openedAt : Option Instant) : Position :=
  { p with
    quantity := quantity
    averageCost := if quantity ≠ 0 then divide basis (p.scaled |quantity|) else 0
    marketPrice := price
    realizedPnl := realizedTotal
    lastUpdated := timestamp
    costBasis := some basis
    openedAt := openedAt }

/-- `_rebased`, keeping when the position opened. -/
def rebased (quantity basis realizedTotal price : Decimal) (timestamp : Instant) : Position :=
  p.rebasedAt quantity basis realizedTotal price timestamp p.openedAt

/-- The position after a split of `ratio` units for each unit held. -/
def split (ratio : Decimal) (timestamp : Instant) : Position :=
  p.rebased (multiply p.quantity ratio) p.basis p.realizedPnl (divide p.marketPrice ratio) timestamp

/-- The position marked at `price`, and the cash the mark settles. -/
def settle (price : Decimal) (timestamp : Instant) : Position × Decimal :=
  if p.paysNotional ∨ p.quantity = 0 then (p.updateMarketPrice price timestamp, 0)
  else
    let amount := p.money (p.scaled (multiply p.quantity (subtract price p.averageCost)))
    (p.rebased p.quantity (p.money (p.scaled (multiply |p.quantity| price)))
      (p.realizedPnl + amount) price timestamp, amount)

def applySettled (quantity price : Decimal) (timestamp : Instant) : Position × Decimal :=
  let (settled, amount) := p.settle price timestamp
  let opened : Bool := settled.quantity = 0
  let remaining := settled.quantity + quantity
  let reverses : Bool :=
    !opened && remaining ≠ 0 && (decide (0 < remaining) != decide (0 < settled.quantity))
  let basis := p.money (p.scaled (multiply |remaining| price))
  (settled.rebasedAt remaining (if remaining ≠ 0 then basis else 0) settled.realizedPnl price
    timestamp (if opened || reverses then some timestamp else settled.openedAt), amount)

def applyLong (quantity price total : Decimal) (timestamp : Instant) : Position × Decimal :=
  let basis := p.basis
  if 0 < quantity then
    (p.rebased (p.quantity + quantity) (basis + total) p.realizedPnl price timestamp, 0)
  else
    let sellQuantity := |quantity|
    if sellQuantity < p.quantity then
      -- the remainder is what is left over, by subtraction
      let relieved := p.money (divide (multiply basis sellQuantity) p.quantity)
      let realized := total - relieved
      (p.rebased (p.quantity - sellQuantity) (basis - relieved) (p.realizedPnl + realized) price
        timestamp, realized)
    else if sellQuantity = p.quantity then
      let realized := total - basis
      (p.rebased 0 0 (p.realizedPnl + realized) price timestamp, realized)
    else
      -- the opening leg is derived by subtraction, so that both sum to `total`
      let closingProceeds := p.money (p.scaled (multiply |p.quantity| price))
      let realized := closingProceeds - basis
      (p.rebasedAt (-(sellQuantity - p.quantity)) (total - closingProceeds)
        (p.realizedPnl + realized) price timestamp (some timestamp), realized)

def applyShort (quantity price total : Decimal) (timestamp : Instant) : Position × Decimal :=
  let currentShort := |p.quantity|
  let basis := p.basis
  if quantity < 0 then
    (p.rebased (-(currentShort + |quantity|)) (basis + total) p.realizedPnl price timestamp, 0)
  else
    let buyQuantity := quantity
    if buyQuantity < currentShort then
      let relieved := p.money (divide (multiply basis buyQuantity) currentShort)
      let realized := relieved - total
      (p.rebased (p.quantity + buyQuantity) (basis - relieved) (p.realizedPnl + realized) price
        timestamp, realized)
    else if buyQuantity = currentShort then
      let realized := basis - total
      (p.rebased 0 0 (p.realizedPnl + realized) price timestamp, realized)
    else
      let closingCost := p.money (p.scaled (multiply currentShort price))
      let realized := basis - closingCost
      (p.rebasedAt (buyQuantity - currentShort) (total - closingCost)
        (p.realizedPnl + realized) price timestamp (some timestamp), realized)

/-- The money a fill of `quantity` at `price` trades. -/
def total (quantity price : Decimal) : Decimal := p.money (p.scaled (multiply |quantity| price))

def applyFill (quantity price : Decimal) (timestamp : Instant) : Position × Decimal :=
  if quantity = 0 then (p, 0)
  else if ¬ p.paysNotional then p.applySettled quantity price timestamp
  else
    let total := p.total quantity price
    if p.quantity = 0 then
      (p.rebasedAt quantity total p.realizedPnl price timestamp (some timestamp), 0)
    else if 0 < p.quantity then p.applyLong quantity price total timestamp
    else p.applyShort quantity price total timestamp

/-! ## What keeps its terms -/

/-- `p'` is the same instrument as `p`, booked the same way. -/
def SameTerms (p' : Position) : Prop :=
  p'.assetId = p.assetId ∧ p'.currency = p.currency ∧ p'.minorUnits = p.minorUnits ∧
    p'.economics = p.economics

variable {p}

theorem SameTerms.decimals {p' : Position} (h : p.SameTerms p') : p'.decimals = p.decimals := by
  obtain ⟨-, hc, hu, -⟩ := h
  simp only [Position.decimals, hc, hu]

theorem SameTerms.paysNotional {p' : Position} (h : p.SameTerms p') :
    p'.paysNotional = p.paysNotional := by
  obtain ⟨-, -, -, he⟩ := h
  simp only [Position.paysNotional, he]

variable (p)

theorem rebasedAt_terms (quantity basis realized price : Decimal) (timestamp : Instant)
    (openedAt : Option Instant) :
    p.SameTerms (p.rebasedAt quantity basis realized price timestamp openedAt) :=
  ⟨rfl, rfl, rfl, rfl⟩

variable (ratio price : Decimal) (timestamp : Instant)

theorem updateMarketPrice_terms : p.SameTerms (p.updateMarketPrice price timestamp) :=
  ⟨rfl, rfl, rfl, rfl⟩

@[simp] theorem updateMarketPrice_quantity :
    (p.updateMarketPrice price timestamp).quantity = p.quantity := rfl

@[simp] theorem rebasedAt_quantity (quantity basis realized price : Decimal) (timestamp : Instant)
    (openedAt : Option Instant) :
    (p.rebasedAt quantity basis realized price timestamp openedAt).quantity = quantity := rfl

@[simp] theorem rebasedAt_basis (quantity basis realized price : Decimal) (timestamp : Instant)
    (openedAt : Option Instant) :
    (p.rebasedAt quantity basis realized price timestamp openedAt).basis = basis := rfl

@[simp] theorem rebasedAt_realizedPnl (quantity basis realized price : Decimal)
    (timestamp : Instant) (openedAt : Option Instant) :
    (p.rebasedAt quantity basis realized price timestamp openedAt).realizedPnl = realized := rfl

/-! ## The signed basis -/

/-- `basis` with the sign of a position of `quantity`. -/
def signed (quantity basis : Decimal) : Decimal :=
  if 0 < quantity then basis else if quantity < 0 then -basis else 0

@[simp] theorem signed_zero (b : Decimal) : signed 0 b = 0 := by simp [signed]

theorem signed_of_pos {q : Decimal} (h : 0 < q) (b : Decimal) : signed q b = b := if_pos h

theorem signed_of_neg {q : Decimal} (h : q < 0) (b : Decimal) : signed q b = -b := by
  rw [signed, if_neg h.not_gt, if_pos h]

/-- What the position adds to equity beyond its unrealized P&L. -/
def signedBasis : Decimal := if p.paysNotional then signed p.quantity p.basis else 0

@[simp] theorem money_zero : p.money 0 = 0 := quantize_zero _

@[simp] theorem scaled_zero : p.scaled 0 = 0 := by simp [scaled]

/-- **Equity beyond the unrealized P&L is the signed basis.** -/
theorem carryingValue_sub_unrealizedPnl : p.carryingValue - p.unrealizedPnl = p.signedBasis := by
  simp only [carryingValue, signedBasis]
  split_ifs with hpays
  · rcases lt_trichotomy p.quantity 0 with hq | hq | hq
    · rw [signed_of_neg hq, unrealizedPnl, if_neg hq.ne, if_neg hq.not_gt]
      ring
    · have hm : p.marketValue = 0 := by simp [marketValue, hq]
      simp [hq, unrealizedPnl, hm]
    · rw [signed_of_pos hq, unrealizedPnl, if_neg hq.ne', if_pos hq]
      ring
  · ring

/-! ## Fills -/

/-- What a fill books: a basis `b` and realized P&L `r`. -/
structure FillBooks (quantity price b r : Decimal) : Prop where
  balanced : p.paysNotional = true → signed (p.quantity + quantity) b =
    signed p.quantity p.basis + signed quantity (p.total quantity price) + r
  whole : Whole p.decimals p.basis → Whole p.decimals b ∧ Whole p.decimals r

theorem whole_money (x : Decimal) : Whole p.decimals (p.money x) := whole_quantize _ _

theorem settle_amount_whole : Whole p.decimals (p.settle price timestamp).2 := by
  simp only [settle]
  split_ifs
  · exact whole_zero _
  · exact p.whole_money _

private theorem applyLong_books {quantity price : Decimal} (hp : 0 < p.quantity) (hq : quantity ≠ 0) :
    ∃ b r o,
    p.applyLong quantity price (p.total quantity price) timestamp =
      (p.rebasedAt (p.quantity + quantity) b (p.realizedPnl + r) price timestamp o, r) ∧
    p.FillBooks quantity price b r := by
  have htotal : Whole p.decimals (p.total quantity price) := p.whole_money _
  simp only [applyLong]
  by_cases hbuy : 0 < quantity
  · refine ⟨p.basis + p.total quantity price, 0, p.openedAt, by simp [hbuy, rebased], ?_, ?_⟩
    · intro _
      rw [signed_of_pos (by linarith), signed_of_pos hp, signed_of_pos hbuy, add_zero]
    · intro hb
      exact ⟨hb.add htotal, whole_zero _⟩
  · have hsell : quantity < 0 := lt_of_le_of_ne (not_lt.mp hbuy) hq
    rw [if_neg hbuy, abs_of_neg hsell]
    rcases lt_trichotomy (-quantity) p.quantity with hlt | heq | hgt
    · -- partial close
      set relieved := p.money (divide (multiply p.basis (-quantity)) p.quantity)
      have hrel : Whole p.decimals relieved := p.whole_money _
      refine ⟨p.basis - relieved, p.total quantity price - relieved, p.openedAt, ?_, ?_, ?_⟩
      · rw [if_pos hlt, sub_neg_eq_add]
        rfl
      · intro _
        rw [signed_of_pos (by linarith), signed_of_pos hp, signed_of_neg hsell]
        ring
      · intro hb
        exact ⟨hb.sub hrel, htotal.sub hrel⟩
    · -- close
      have hzero : p.quantity + quantity = 0 := by linarith
      refine ⟨0, p.total quantity price - p.basis, p.openedAt, ?_, ?_, ?_⟩
      · rw [if_neg heq.not_lt, if_pos heq, hzero]
        rfl
      · intro _
        rw [hzero, signed_zero, signed_of_pos hp, signed_of_neg hsell]
        ring
      · intro hb
        exact ⟨whole_zero _, htotal.sub hb⟩
    · -- reverse to a short
      set proceeds := p.money (p.scaled (multiply |p.quantity| price))
      have hproc : Whole p.decimals proceeds := p.whole_money _
      refine ⟨p.total quantity price - proceeds, proceeds - p.basis, some timestamp, ?_, ?_, ?_⟩
      · rw [if_neg hgt.not_gt, if_neg hgt.ne']
        congr 2
        ring
      · intro _
        rw [signed_of_neg (by linarith), signed_of_pos hp, signed_of_neg hsell]
        ring
      · intro hb
        exact ⟨htotal.sub hproc, hproc.sub hb⟩

private theorem applyShort_books {quantity price : Decimal} (hp : p.quantity < 0)
    (hq : quantity ≠ 0) : ∃ b r o,
    p.applyShort quantity price (p.total quantity price) timestamp =
      (p.rebasedAt (p.quantity + quantity) b (p.realizedPnl + r) price timestamp o, r) ∧
    p.FillBooks quantity price b r := by
  have htotal : Whole p.decimals (p.total quantity price) := p.whole_money _
  simp only [applyShort, abs_of_neg hp]
  by_cases hsell : quantity < 0
  · refine ⟨p.basis + p.total quantity price, 0, p.openedAt, ?_, ?_, ?_⟩
    · rw [if_pos hsell, abs_of_neg hsell, add_zero, rebased]
      congr 2
      ring
    · intro _
      rw [signed_of_neg (by linarith), signed_of_neg hp, signed_of_neg hsell]
      ring
    · intro hb
      exact ⟨hb.add htotal, whole_zero _⟩
  · have hbuy : 0 < quantity := lt_of_le_of_ne (not_lt.mp hsell) hq.symm
    rw [if_neg hsell]
    rcases lt_trichotomy quantity (-p.quantity) with hlt | heq | hgt
    · -- partial cover
      set relieved := p.money (divide (multiply p.basis quantity) (-p.quantity))
      have hrel : Whole p.decimals relieved := p.whole_money _
      refine ⟨p.basis - relieved, relieved - p.total quantity price, p.openedAt, ?_, ?_, ?_⟩
      · rw [if_pos hlt]
        rfl
      · intro _
        rw [signed_of_neg (by linarith), signed_of_neg hp, signed_of_pos hbuy]
        ring
      · intro hb
        exact ⟨hb.sub hrel, hrel.sub htotal⟩
    · -- close
      have hzero : p.quantity + quantity = 0 := by linarith
      refine ⟨0, p.basis - p.total quantity price, p.openedAt, ?_, ?_, ?_⟩
      · rw [if_neg heq.not_lt, if_pos heq, hzero]
        rfl
      · intro _
        rw [hzero, signed_zero, signed_of_neg hp, signed_of_pos hbuy]
        ring
      · intro hb
        exact ⟨whole_zero _, hb.sub htotal⟩
    · -- reverse to a long
      set cost := p.money (p.scaled (multiply (-p.quantity) price))
      have hcost : Whole p.decimals cost := p.whole_money _
      refine ⟨p.total quantity price - cost, p.basis - cost, some timestamp, ?_, ?_, ?_⟩
      · rw [if_neg hgt.not_gt, if_neg hgt.ne']
        congr 2
        ring
      · intro _
        rw [signed_of_pos (by linarith), signed_of_neg hp, signed_of_pos hbuy]
        ring
      · intro hb
        exact ⟨htotal.sub hcost, hb.sub hcost⟩

private theorem applySettled_books (quantity price : Decimal) (timestamp : Instant)
    (hpays : p.paysNotional = false) : ∃ b r o,
    p.applySettled quantity price timestamp =
      (p.rebasedAt (p.quantity + quantity) b (p.realizedPnl + r) price timestamp o, r) ∧
    p.FillBooks quantity price b r := by
  have hr := p.settle_amount_whole price timestamp
  refine ⟨if p.quantity + quantity ≠ 0 then
      p.money (p.scaled (multiply |p.quantity + quantity| price)) else 0,
    (p.settle price timestamp).2, ?_⟩
  simp only [applySettled, settle, hpays, Bool.false_eq_true, false_or] at hr ⊢
  by_cases hq : p.quantity = 0
  · simp only [hq, if_true, updateMarketPrice, rebasedAt, add_zero]
    refine ⟨_, rfl, by simp [hpays], fun _ => ⟨?_, whole_zero _⟩⟩
    split_ifs
    exacts [p.whole_money _, whole_zero _]
  · simp only [hq, if_false, rebased, rebasedAt] at hr ⊢
    refine ⟨_, rfl, by simp [hpays], fun _ => ⟨?_, hr⟩⟩
    split_ifs
    exacts [p.whole_money _, whole_zero _]

/-- **What a fill does to a position**: its quantity is added, its price taken,
    and the basis and realized P&L balance against the money traded. -/
theorem applyFill_books {quantity : Decimal} (hq : quantity ≠ 0) : ∃ b r o,
    p.applyFill quantity price timestamp =
      (p.rebasedAt (p.quantity + quantity) b (p.realizedPnl + r) price timestamp o, r) ∧
    p.FillBooks quantity price b r := by
  simp only [applyFill, if_neg hq]
  cases hpays : p.paysNotional with
  | false => simpa using p.applySettled_books quantity price timestamp hpays
  | true =>
    simp only [not_true_eq_false, if_false]
    rcases lt_trichotomy p.quantity 0 with hp | hp | hp
    · simpa only [if_neg hp.ne, if_neg hp.not_gt] using p.applyShort_books timestamp hp hq
    · refine ⟨p.total quantity price, 0, some timestamp, by simp [hp], ?_, ?_⟩
      · intro _
        rw [hp, zero_add, signed_zero, zero_add, add_zero]
      · intro _
        exact ⟨p.whole_money _, whole_zero _⟩
    · simpa only [if_neg hp.ne', if_pos hp] using p.applyLong_books timestamp hp hq

/-! ## Marks and splits -/

theorem settle_terms : p.SameTerms (p.settle price timestamp).1 := by
  simp only [settle]
  split_ifs
  exacts [p.updateMarketPrice_terms .., p.rebasedAt_terms ..]

theorem settle_signedBasis : (p.settle price timestamp).1.signedBasis = p.signedBasis := by
  have hterms := (p.settle_terms price timestamp).paysNotional
  simp only [signedBasis, hterms]
  refine if_ctx_congr Iff.rfl (fun hpays => ?_) fun _ => rfl
  simp only [settle, hpays, true_or, if_true]
  rfl

theorem split_terms :
    p.SameTerms (p.split ratio timestamp) :=
  p.rebasedAt_terms ..

theorem split_quantity : (p.split ratio timestamp).quantity = multiply p.quantity ratio := by
  rw [split, rebased, rebasedAt_quantity]

theorem split_basis : (p.split ratio timestamp).basis = p.basis := by
  rw [split, rebased, rebasedAt_basis]

theorem split_signedBasis {ratio : Decimal} (hr : 0 < ratio) :
    (p.split ratio timestamp).signedBasis = p.signedBasis := by
  have hterms := (p.split_terms ratio timestamp).paysNotional
  rw [signedBasis, signedBasis, hterms, split_quantity, split_basis]
  refine if_congr Iff.rfl ?_ rfl
  rcases lt_trichotomy p.quantity 0 with hq | hq | hq
  · have hn : multiply p.quantity ratio < 0 := inContext_neg (mul_neg_of_neg_of_pos hq hr)
    rw [signed_of_neg hq, signed_of_neg hn]
  · simp [hq]
  · have hn : 0 < multiply p.quantity ratio := inContext_pos (mul_pos hq hr)
    rw [signed_of_pos hq, signed_of_pos hn]

/-- A position of some units, its average cost that of its basis. -/
structure Standing (p : Position) : Prop where
  units : p.quantity ≠ 0
  based : ∃ basis, p.costBasis = some basis ∧ p.averageCost = divide basis (p.scaled |p.quantity|)

theorem rebasedAt_standing {units : Decimal} (basis realized price : Decimal)
    (timestamp : Instant) (openedAt : Option Instant) (h : units ≠ 0) :
    (p.rebasedAt units basis realized price timestamp openedAt).Standing :=
  ⟨h, basis, rfl, if_pos h⟩

theorem settle_standing {p : Position} (h : p.Standing) (price : Decimal)
    (timestamp : Instant) : (p.settle price timestamp).1.Standing := by
  unfold settle
  split_ifs
  · exact ⟨h.units, h.based⟩
  · exact p.rebasedAt_standing _ _ _ _ _ h.units

theorem settle_quantity : (p.settle price timestamp).1.quantity = p.quantity := by
  unfold settle
  split_ifs <;> rfl

theorem settle_marketPrice : (p.settle price timestamp).1.marketPrice = price := by
  unfold settle
  split_ifs <;> rfl

end Position
end AlphaLab
