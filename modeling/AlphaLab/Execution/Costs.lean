/-
  What a fill costs, and the price it happens at (`execution/costs.py`,
  `execution/slippage.py`, and `passive_costs` of `execution/simulator.py`).

  * `SpreadModel`, `SlippageModel` and `ImpactModel` are the shipped price concessions, each
    computed from what the event showed; commission, fees and tax are charged in cash;
  * `ExecutionCostModel.quote` itemizes a fill, `fillPriceFrom` applies a concession to the
    reference price, `priced` is the price and the cash of a fill.
-/
import AlphaLab.Core.Enums
import AlphaLab.Lib.SquareRoot
import AlphaLab.Lib.Ties
import AlphaLab.Portfolio.Money

namespace AlphaLab

open Rounding

/-- `CostContext`, with what the event showed. -/
structure EventCostContext where
  assetId : String
  side : Side
  quantity : Decimal
  referencePrice : Decimal
  currency : String
  timestamp : Instant
  quote : Option (Decimal × Decimal)
  availableLiquidity : Option Decimal

/-- What a cost model makes of a fill: its price, and the cash it is charged. -/
structure PricedFill where
  price : Decimal
  cashCharged : Decimal

namespace EventCostContext

variable (context : EventCostContext)

/-- `participation`: the share of the shown liquidity the fill takes. -/
def participation : Option Decimal := do
  let available ← context.availableLiquidity
  if available ≤ 0 then none else some (divide context.quantity available)

/-- `money`: a cash amount rounded to the minor unit, left exact where nobody stated one. -/
def money (minorUnits : Option ℕ) (amount : Decimal) : Decimal :=
  (minorUnits.or (iso4217MinorUnits context.currency)).elim amount fun units =>
    quantize units amount

/-- The same observation, of a fill of another size. -/
def sized (quantity : Decimal) : EventCostContext := { context with quantity := quantity }

end EventCostContext

/-! ## Price concessions -/

def concessionDigits : ℕ := 18

/-- `_concession`: an amount carried to 18 significant digits. -/
def concession (amount : Decimal) : Decimal := roundSig 10 concessionDigits amount

/-- The shipped members of `SpreadModel`. -/
inductive SpreadModel where
  | none
  | quoted
  | fixed (amount : Decimal)

def SpreadModel.halfSpread (context : EventCostContext) : SpreadModel → Option Decimal
  | none => some 0
  | quoted => do
    let (bid, ask) ← context.quote
    if ask < bid then Option.none else some (divide (subtract ask bid) 2)
  | fixed amount => some amount

/-- The shipped members of `SlippageModel`. -/
inductive SlippageModel where
  | none
  | fixed (amount : Decimal)
  | percentage (rate : Decimal)
  | marketImpact (impactFactor referenceQuantity : Decimal)

def SlippageModel.calculate (fillQuantity fillPrice : Decimal) : SlippageModel → Decimal
  | none => 0
  | fixed amount => if fillQuantity ≤ 0 then 0 else amount
  | percentage rate => if fillQuantity ≤ 0 then 0 else multiply fillPrice rate
  | marketImpact impactFactor referenceQuantity =>
    if fillQuantity ≤ 0 then 0
    else multiply fillPrice (multiply (divide fillQuantity referenceQuantity) impactFactor)

/-- The shipped members of `ImpactModel`. -/
inductive ImpactModel where
  | none
  | linear (coefficient : Decimal)
  | squareRoot (coefficient : Decimal)

/-- `sqrt` in the accounting context. -/
def sqrtInContext (x : Decimal) : Decimal := sqrtSig 10 accountingPrecision x

def ImpactModel.impact (context : EventCostContext) : ImpactModel → Option Decimal
  | none => some 0
  | linear coefficient => do
    let participation ← context.participation
    pure (multiply (multiply coefficient participation) context.referencePrice)
  | squareRoot coefficient => do
    let participation ← context.participation
    pure (multiply (multiply coefficient (sqrtInContext participation)) context.referencePrice)

/-! ## The model -/

structure ExecutionCosts where
  spread : Decimal
  slippage : Decimal
  impact : Decimal
  commission : Decimal
  fees : Decimal
  tax : Decimal

namespace ExecutionCosts

variable (costs : ExecutionCosts)

/-- `__post_init__`: a cost is a cost; only the commission may be a rebate. -/
def WellFormed : Prop :=
  0 ≤ costs.spread ∧ 0 ≤ costs.slippage ∧ 0 ≤ costs.impact ∧ 0 ≤ costs.fees ∧ 0 ≤ costs.tax

instance : Decidable costs.WellFormed := inferInstanceAs (Decidable (_ ∧ _ ∧ _ ∧ _ ∧ _))

def priceConcession : Decimal := add (add costs.spread costs.slippage) costs.impact

def cashCharged : Decimal := add (add costs.commission costs.fees) costs.tax

end ExecutionCosts

structure ExecutionCostModel where
  spreadModel : SpreadModel
  slippageModel : SlippageModel
  impactModel : ImpactModel
  commissionModel : Decimal → Decimal → Decimal
  feeModel : EventCostContext → Decimal → Decimal
  taxModel : EventCostContext → Decimal → Decimal

/-- `fill_price_from`: a buy pays more, a sell receives less; a concession does not carry a
    positive price to zero. -/
def fillPriceFrom (context : EventCostContext) (perUnit : Decimal) : Option Decimal :=
  match context.side with
  | .buy => some (add context.referencePrice perUnit)
  | .sell =>
    let price := subtract context.referencePrice perUnit
    if 0 < context.referencePrice ∧ price ≤ 0 then none else some price

namespace ExecutionCostModel

variable (model : ExecutionCostModel)

/-- `quote`: a fill itemized; a fill of nothing costs nothing. -/
def quote (minorUnits : Option ℕ) (context : EventCostContext) : Option ExecutionCosts :=
  if context.quantity ≤ 0 then some ⟨0, 0, 0, 0, 0, 0⟩
  else do
    let halfSpread ← model.spreadModel.halfSpread context
    let slippage := concession
      (model.slippageModel.calculate context.quantity context.referencePrice)
    let impact ← model.impactModel.impact context
    let price ← fillPriceFrom context
      (add (add (concession halfSpread) slippage) (concession impact))
    let cashBase := multiply price context.quantity
    let costs : ExecutionCosts := {
      spread := concession halfSpread
      slippage := slippage
      impact := concession impact
      commission := context.money minorUnits (model.commissionModel context.quantity price)
      fees := context.money minorUnits (model.feeModel context cashBase)
      tax := context.money minorUnits (model.taxModel context cashBase) }
    if costs.WellFormed then some costs else none

/-- The price and the cash of a fill (`quote`, then `fill_price`). -/
def priced (minorUnits : Option ℕ) (context : EventCostContext) : Option PricedFill := do
  let costs ← model.quote minorUnits context
  let price ← fillPriceFrom context costs.priceConcession
  pure ⟨price, costs.cashCharged⟩

/-- `passive_costs`: what a resting fill is priced by, a maker's commission in the place of
    the model's where one is set. -/
def passiveCosts (maker : Option (Decimal → Decimal → Decimal)) : ExecutionCostModel where
  spreadModel := .none
  slippageModel := .none
  impactModel := .none
  commissionModel := maker.getD model.commissionModel
  feeModel := model.feeModel
  taxModel := model.taxModel

end ExecutionCostModel

/-! ## Larger fills are priced no better -/

theorem inContext_monotone {x y : Decimal} (h : x ≤ y) : inContext x ≤ inContext y :=
  roundSig_monotone (by norm_num) (by norm_num [accountingPrecision]) h

theorem multiply_le_multiply {x y z : Decimal} (hz : 0 ≤ z) (h : x ≤ y) :
    multiply z x ≤ multiply z y :=
  inContext_monotone (mul_le_mul_of_nonneg_left h hz)

theorem multiply_comm (x y : Decimal) : multiply x y = multiply y x := by
  rw [multiply, multiply, mul_comm]

theorem concession_mono {x y : Decimal} (h : x ≤ y) : concession x ≤ concession y :=
  roundSig_monotone (by norm_num) (by norm_num [concessionDigits]) h

@[simp] theorem concession_zero : concession 0 = 0 := roundSig_zero

def SlippageModel.NonNegative : SlippageModel → Prop
  | none => True
  | fixed amount => 0 ≤ amount
  | percentage rate => 0 ≤ rate
  | marketImpact impactFactor referenceQuantity => 0 ≤ impactFactor ∧ 0 < referenceQuantity

def ImpactModel.NonNegative : ImpactModel → Prop
  | none => True
  | linear coefficient | squareRoot coefficient => 0 ≤ coefficient

/-- The parameters of the price concessions are not negative; a spread's cannot be, as a
    quote of one would refuse. -/
def ExecutionCostModel.NonNegative (model : ExecutionCostModel) : Prop :=
  model.slippageModel.NonNegative ∧ model.impactModel.NonNegative

theorem concession_of_rate {price rate rate' : Decimal} (hrate : 0 ≤ rate) (h : rate ≤ rate') :
    concession (multiply rate price) ≤ max 0 (concession (multiply rate' price)) := by
  rcases le_or_gt 0 price with hprice | hprice
  · refine le_max_of_le_right (concession_mono ?_)
    rw [multiply_comm rate, multiply_comm rate']
    exact multiply_le_multiply hprice h
  · refine le_max_of_le_left ?_
    calc concession (multiply rate price) ≤ concession (multiply rate 0) :=
          concession_mono (multiply_le_multiply hrate hprice.le)
      _ = 0 := by rw [multiply_zero, concession_zero]

section
variable {context : EventCostContext} {q q' : Decimal}

theorem SlippageModel.concession_le {model : SlippageModel} (hmodel : model.NonNegative)
    (hq : 0 < q) (h : q ≤ q') (price : Decimal) :
    concession (model.calculate q price) ≤ max 0 (concession (model.calculate q' price)) := by
  have hq' := hq.trans_le h
  cases model with
  | none => simp [calculate]
  | fixed amount =>
    simp only [calculate, if_neg hq.not_ge, if_neg hq'.not_ge]
    exact le_max_right _ _
  | percentage rate =>
    simp only [calculate, if_neg hq.not_ge, if_neg hq'.not_ge]
    exact le_max_right _ _
  | marketImpact impactFactor referenceQuantity =>
    obtain ⟨hfactor, hreference⟩ := hmodel
    simp only [calculate, if_neg hq.not_ge, if_neg hq'.not_ge]
    rw [multiply_comm price, multiply_comm price]
    have hshare : 0 ≤ divide q referenceQuantity :=
      inContext_nonneg (div_nonneg hq.le hreference.le)
    have hgrows : divide q referenceQuantity ≤ divide q' referenceQuantity :=
      inContext_monotone (div_le_div_of_nonneg_right h hreference.le)
    refine concession_of_rate (multiply_nonneg hshare hfactor) ?_
    rw [multiply_comm, multiply_comm (divide q' referenceQuantity)]
    exact multiply_le_multiply hfactor hgrows

theorem participation_mono {share share' : Decimal} (hq : 0 ≤ q) (h : q ≤ q')
    (hshare : (context.sized q).participation = some share)
    (hshare' : (context.sized q').participation = some share') : 0 ≤ share ∧ share ≤ share' := by
  obtain ⟨available, havailable, hsome⟩ := Option.bind_eq_some_iff.mp hshare
  obtain ⟨available', havailable', hsome'⟩ := Option.bind_eq_some_iff.mp hshare'
  obtain rfl := Option.some.inj (havailable.symm.trans havailable')
  split_ifs at hsome hsome' with hempty
  obtain rfl := Option.some.inj hsome
  obtain rfl := Option.some.inj hsome'
  have hpos := (not_le.mp hempty).le
  exact ⟨inContext_nonneg (div_nonneg hq hpos),
    inContext_monotone (div_le_div_of_nonneg_right h hpos)⟩

theorem ImpactModel.concession_le {model : ImpactModel} (hmodel : model.NonNegative)
    (hq : 0 ≤ q) (h : q ≤ q') {impact impact' : Decimal}
    (himpact : model.impact (context.sized q) = some impact)
    (himpact' : model.impact (context.sized q') = some impact') :
    concession impact ≤ max 0 (concession impact') := by
  cases model with
  | none =>
    obtain rfl := Option.some.inj himpact
    simp
  | linear coefficient =>
    obtain ⟨share, hshare, hsome⟩ := Option.bind_eq_some_iff.mp himpact
    obtain ⟨share', hshare', hsome'⟩ := Option.bind_eq_some_iff.mp himpact'
    obtain rfl := Option.some.inj hsome
    obtain rfl := Option.some.inj hsome'
    obtain ⟨hnonneg, hle⟩ := participation_mono hq h hshare hshare'
    exact concession_of_rate (multiply_nonneg hmodel hnonneg)
      (multiply_le_multiply hmodel hle)
  | squareRoot coefficient =>
    obtain ⟨share, hshare, hsome⟩ := Option.bind_eq_some_iff.mp himpact
    obtain ⟨share', hshare', hsome'⟩ := Option.bind_eq_some_iff.mp himpact'
    obtain rfl := Option.some.inj hsome
    obtain rfl := Option.some.inj hsome'
    obtain ⟨-, hle⟩ := participation_mono hq h hshare hshare'
    have hroot : 0 ≤ sqrtInContext share := sqrtSig_nonneg (by norm_num) share
    have hroots : sqrtInContext share ≤ sqrtInContext share' :=
      sqrtSig_mono (by norm_num) (by norm_num [accountingPrecision]) hle
    exact concession_of_rate (multiply_nonneg hmodel hroot)
      (multiply_le_multiply hmodel hroots)

variable {model : ExecutionCostModel} {minorUnits : Option ℕ}

/-- **What a fill is itemized as**: nothing if nothing fills, else the concessions of the
    three roles, none of them negative. -/
theorem quote_cases {costs : ExecutionCosts} (h : model.quote minorUnits context = some costs) :
    costs.WellFormed ∧ (context.quantity ≤ 0 ∧ costs.priceConcession = 0 ∨
      0 < context.quantity ∧ ∃ halfSpread impact,
        model.spreadModel.halfSpread context = some halfSpread ∧
        model.impactModel.impact context = some impact ∧
        costs.spread = concession halfSpread ∧
        costs.slippage = concession
          (model.slippageModel.calculate context.quantity context.referencePrice) ∧
        costs.impact = concession impact) := by
  unfold ExecutionCostModel.quote at h
  split_ifs at h with hq
  · obtain rfl := Option.some.inj h
    exact ⟨⟨le_rfl, le_rfl, le_rfl, le_rfl, le_rfl⟩,
      Or.inl ⟨hq, by simp [ExecutionCosts.priceConcession, add]⟩⟩
  · obtain ⟨halfSpread, hspread, h⟩ := Option.bind_eq_some_iff.mp h
    obtain ⟨impact, himpact, h⟩ := Option.bind_eq_some_iff.mp h
    obtain ⟨price, -, h⟩ := Option.bind_eq_some_iff.mp h
    dsimp only at h
    split_ifs at h with hcosts
    obtain rfl := Option.some.inj h
    exact ⟨hcosts, Or.inr ⟨not_le.mp hq, halfSpread, impact, hspread, himpact, rfl, rfl, rfl⟩⟩

theorem priceConcession_nonneg {costs : ExecutionCosts} (h : costs.WellFormed) :
    0 ≤ costs.priceConcession :=
  inContext_nonneg (add_nonneg (inContext_nonneg (add_nonneg h.1 h.2.1)) h.2.2.1)

/-- **A larger fill concedes no less.** -/
theorem priceConcession_mono (hmodel : model.NonNegative) {costs costs' : ExecutionCosts}
    (hq : q ≤ q') (h : model.quote minorUnits (context.sized q) = some costs)
    (h' : model.quote minorUnits (context.sized q') = some costs') :
    costs.priceConcession ≤ costs'.priceConcession := by
  obtain ⟨-, hcases⟩ := quote_cases h
  obtain ⟨hcosts', hcases'⟩ := quote_cases h'
  rcases hcases with ⟨-, hzero⟩ | ⟨hpos, halfSpread, impact, hspread, himpact, hs, hl, hi⟩
  · rw [hzero]
    exact priceConcession_nonneg hcosts'
  · rcases hcases' with ⟨hnone, -⟩ | ⟨-, halfSpread', impact', hspread', himpact', hs', hl', hi'⟩
    · exact absurd (hpos.trans_le hq) hnone.not_gt
    · obtain ⟨hspread0, hslip0, himpact0, -⟩ := hcosts'
      have hspreads : costs.spread = costs'.spread := by
        have hsame : model.spreadModel.halfSpread (context.sized q) =
            model.spreadModel.halfSpread (context.sized q') := by
          cases model.spreadModel <;> rfl
        rw [hsame] at hspread
        rw [hs, hs', Option.some.inj (hspread.symm.trans hspread')]
      have hslips : costs.slippage ≤ costs'.slippage := by
        have hle := SlippageModel.concession_le hmodel.1 hpos hq context.referencePrice
        rw [hl'] at hslip0
        rw [hl, hl']
        exact hle.trans_eq (max_eq_right hslip0)
      have himpacts : costs.impact ≤ costs'.impact := by
        have hle := ImpactModel.concession_le hmodel.2 hpos.le hq himpact himpact'
        rw [hi'] at himpact0
        rw [hi, hi']
        exact hle.trans_eq (max_eq_right himpact0)
      refine inContext_monotone (add_le_add (inContext_monotone ?_) himpacts)
      rw [hspreads]
      exact add_le_add le_rfl hslips

theorem fillPriceFrom_eq {perUnit price : Decimal} (h : fillPriceFrom context perUnit = some price) :
    price = match context.side with
      | .buy => add context.referencePrice perUnit
      | .sell => subtract context.referencePrice perUnit := by
  unfold fillPriceFrom at h
  cases hside : context.side with
  | buy =>
    rw [hside] at h
    exact (Option.some.inj h).symm
  | sell =>
    rw [hside] at h
    dsimp only at h
    split_ifs at h
    exact (Option.some.inj h).symm

/-- **A larger fill at the same observation is priced no better**: no lower for a buyer, no
    higher for a seller. -/
theorem priced_mono (hmodel : model.NonNegative) {fill fill' : PricedFill} (hq : q ≤ q')
    (h : model.priced minorUnits (context.sized q) = some fill)
    (h' : model.priced minorUnits (context.sized q') = some fill') :
    match context.side with
    | .buy => fill.price ≤ fill'.price
    | .sell => fill'.price ≤ fill.price := by
  obtain ⟨costs, hcosts, h⟩ := Option.bind_eq_some_iff.mp h
  obtain ⟨costs', hcosts', h'⟩ := Option.bind_eq_some_iff.mp h'
  obtain ⟨price, hprice, h⟩ := Option.bind_eq_some_iff.mp h
  obtain ⟨price', hprice', h'⟩ := Option.bind_eq_some_iff.mp h'
  obtain rfl := Option.some.inj h
  obtain rfl := Option.some.inj h'
  have hmono := priceConcession_mono hmodel hq hcosts hcosts'
  obtain rfl := fillPriceFrom_eq hprice
  obtain rfl := fillPriceFrom_eq hprice'
  simp only [EventCostContext.sized]
  cases context.side with
  | buy => exact inContext_monotone (add_le_add le_rfl hmono)
  | sell => exact inContext_monotone (sub_le_sub le_rfl hmono)

/-- **A maker's price is the reference**, as the context has it. -/
theorem passive_priced {maker : Option (Decimal → Decimal → Decimal)} {fill : PricedFill}
    (h : (model.passiveCosts maker).priced minorUnits context = some fill) :
    fill.price = inContext context.referencePrice := by
  obtain ⟨costs, hcosts, h⟩ := Option.bind_eq_some_iff.mp h
  obtain ⟨price, hprice, h⟩ := Option.bind_eq_some_iff.mp h
  obtain rfl := Option.some.inj h
  have hzero : costs.priceConcession = 0 := by
    obtain ⟨-, ⟨-, hzero⟩ | ⟨-, halfSpread, impact, hspread, himpact, hs, hl, hi⟩⟩ :=
      quote_cases hcosts
    · exact hzero
    · obtain rfl := Option.some.inj hspread
      obtain rfl := Option.some.inj himpact
      simp [ExecutionCosts.priceConcession, hs, hl, hi, add, SlippageModel.calculate,
        ExecutionCostModel.passiveCosts]
  obtain rfl := fillPriceFrom_eq hprice
  rw [hzero]
  cases context.side with
  | buy => exact congrArg inContext (add_zero _)
  | sell => exact congrArg inContext (sub_zero _)

end

end AlphaLab
