/-
  The account's margin (`instrument/margin.py`, and `margin_position`, `MarginHolding` and
  `MarginPosition` of `runtime/execution_pipeline.py`), in a book of one currency.

  * `InstrumentMarginTerms` is what an instrument declares, `MarginedPosition` a position with it;
    `MarginedPosition.holding` is what the account requires for it, in the accounting context;
  * `MarginBook.position` sums them, in the order a liquidation reduces them, or asks the
    account's margin model;
  * `MarginPosition.figures` is what would be required at other quantities;
    `figures_congr`: it reads the quantities of its holdings alone.
-/
import AlphaLab.Lib.SortBy
import AlphaLab.Risk.Gate
import AlphaLab.Simulation.Auction

namespace AlphaLab

open Fallible

/-! ## What instruments declare -/

inductive MarginBasis where
  | valueRate | perContract
deriving DecidableEq

/-- `MarginTerms` -/
theorem no_haircut : (0 : Decimal) ≤ 0 := le_rfl

structure InstrumentMarginTerms where
  basis : MarginBasis
  initial : Decimal
  maintenance : Decimal
  haircut : Decimal := 0
  priority : ℤ := 0
  maintenance_pos : 0 < maintenance := by norm_num
  maintenance_le : maintenance ≤ initial := by norm_num
  haircut_nonneg : 0 ≤ haircut := by first | exact no_haircut | norm_num
  haircut_lt : haircut < 1 := by first | exact one_positive | norm_num

instance : DecidableEq InstrumentMarginTerms := fun a b =>
  decidable_of_iff (a.basis = b.basis ∧ a.initial = b.initial ∧ a.maintenance = b.maintenance ∧
      a.haircut = b.haircut ∧ a.priority = b.priority)
    (by cases a; cases b; simp)

/-- `requirement`: at one of the two rates, what a quantity worth a value requires. -/
def InstrumentMarginTerms.requirement (terms : InstrumentMarginTerms) (quantity value rate : Decimal) : Decimal :=
  match terms.basis with
  | .valueRate => multiply |value| rate
  | .perContract => multiply |quantity| rate

structure OptionRisk where
  underlying : String
  underlyingPrice : Decimal
  strike : Decimal
  isCall : Bool
  american : Bool
  expiresAt : Instant
  asOf : Instant
  units : Decimal
  toBase : Decimal
  volatility : Option Decimal := none
deriving DecidableEq

/-- `MarginExposure`: one margined position, as a margin model reads it. -/
structure MarginExposure where
  assetId : String
  value : Decimal
  initial : Decimal
  maintenance : Decimal
  option : Option OptionRisk := none

structure MarginRequirement where
  initial : Decimal
  maintenance : Decimal

abbrev MarginModel := List MarginExposure → MarginRequirement

structure MarginHolding where
  assetId : String
  quantity : Decimal
  priority : ℤ := 0
  initial : Decimal
  maintenance : Decimal
  unitInitial : Decimal
  unitCollateral : Decimal
  unitValue : Decimal := 0
  unitMaintenance : Decimal := 0
  haircutRate : Decimal := 0
  option : Option OptionRisk := none
deriving DecidableEq

namespace MarginHolding

variable (h : MarginHolding)

def sign : Decimal := if 0 < h.quantity then 1 else -1

/-- `exposure`, at a quantity: its own figures at its own, the per-unit figures elsewhere. -/
def exposure (quantity : Decimal) : MarginExposure :=
  let option := h.option.map fun option =>
    { option with units := multiply quantity option.units }
  if quantity = h.quantity then
    { assetId := h.assetId
      value := multiply h.sign (multiply |h.quantity| h.unitValue)
      initial := h.initial
      maintenance := h.maintenance
      option := option }
  else
    { assetId := h.assetId
      value := multiply quantity h.unitValue
      initial := multiply |quantity| h.unitInitial
      maintenance := multiply |quantity| h.unitMaintenance
      option := option }

/-- `haircut`: what a holding of a quantity is not counted for as collateral. -/
def haircut (quantity : Decimal) : Decimal :=
  if quantity ≤ 0 ∨ h.haircutRate = 0 then 0
  else multiply (multiply quantity h.unitValue) h.haircutRate

/-- What one unit sold improves: the initial requirement and the haircut it held back. -/
def improvement : Decimal := add h.unitInitial h.unitCollateral

end MarginHolding

/-! ## The account -/

/-- `MarginPosition`, of holdings of distinct instruments. -/
structure MarginPosition where
  equity : Decimal
  initial : Decimal
  maintenance : Decimal
  holdings : List MarginHolding
  model : Option MarginModel := none
  nodup : (holdings.map (·.assetId)).Nodup

namespace MarginPosition

variable (m : MarginPosition)

/-- What is held at `quantities`, where a position that is not named keeps its own. -/
def heldAt (quantities : Dict String Decimal) (h : MarginHolding) : Decimal :=
  (quantities.get? h.assetId).getD h.quantity

/-- `figures`: equity, initial and maintenance were the positions `quantities`. -/
def figures (quantities : Dict String Decimal) : Decimal × Decimal × Decimal :=
  let equity := m.holdings.foldl (fun equity h =>
    add equity (subtract (h.haircut h.quantity) (h.haircut (heldAt quantities h)))) m.equity
  let exposures := m.holdings.filterMap fun h =>
    if heldAt quantities h = 0 then none else some (h.exposure (heldAt quantities h))
  match m.model with
  | none => (equity, sumInContext (exposures.map (·.initial)),
      sumInContext (exposures.map (·.maintenance)))
  | some model => (equity, (model exposures).initial, (model exposures).maintenance)

def InBreach : Prop := m.equity < m.maintenance

instance : Decidable m.InBreach := inferInstanceAs (Decidable (_ < _))

/-- `deficit`: what a liquidation restores. -/
def deficit : Decimal := max 0 (subtract m.initial m.equity)

/-- **The figures read the quantities of the holdings alone.** -/
theorem figures_congr {quantities quantities' : Dict String Decimal}
    (h : ∀ holding ∈ m.holdings, heldAt quantities holding = heldAt quantities' holding) :
    m.figures quantities = m.figures quantities' := by
  have hequity : ∀ (l : List MarginHolding) (equity : Decimal),
      (∀ holding ∈ l, heldAt quantities holding = heldAt quantities' holding) →
      l.foldl (fun equity h => add equity (subtract (h.haircut h.quantity)
          (h.haircut (heldAt quantities h)))) equity =
        l.foldl (fun equity h => add equity (subtract (h.haircut h.quantity)
          (h.haircut (heldAt quantities' h)))) equity := by
    intro l
    induction l with
    | nil => intro equity _; rfl
    | cons holding l ih =>
      intro equity hl
      rw [List.foldl_cons, List.foldl_cons, hl holding (by simp)]
      exact ih _ fun other hother => hl other (by simp [hother])
  have hexposures : (m.holdings.filterMap fun h =>
      if heldAt quantities h = 0 then none else some (h.exposure (heldAt quantities h))) =
      m.holdings.filterMap fun h =>
        if heldAt quantities' h = 0 then none else some (h.exposure (heldAt quantities' h)) :=
    List.filterMap_congr fun holding hmem => by rw [h holding hmem]
  unfold figures
  rw [hequity m.holdings m.equity h, hexposures]

end MarginPosition

/-! ## The book -/

structure MarginedPosition where
  assetId : String
  position : Position
  terms : InstrumentMarginTerms
  option : Option OptionRisk := none
deriving DecidableEq

namespace MarginedPosition

variable (p : MarginedPosition)

def value : Decimal :=
  multiply (multiply |p.position.quantity| p.position.marketPrice) p.position.multiplier

def unitValue : Decimal := divide p.value |p.position.quantity|

def unitRequirement (rate : Decimal) : Decimal :=
  match p.terms.basis with
  | .valueRate => multiply p.unitValue rate
  | .perContract => rate

def isCollateral : Bool :=
  0 < p.position.quantity && p.position.paysNotional && p.terms.haircut ≠ 0

/-- What is required for a position, as `margin_position` reads it. -/
def holding : MarginHolding where
  assetId := p.assetId
  quantity := p.position.quantity
  priority := p.terms.priority
  initial := p.terms.requirement p.position.quantity p.value p.terms.initial
  maintenance := p.terms.requirement p.position.quantity p.value p.terms.maintenance
  unitInitial := p.unitRequirement p.terms.initial
  unitCollateral := if p.isCollateral then multiply p.unitValue p.terms.haircut else 0
  unitValue := p.unitValue
  unitMaintenance := p.unitRequirement p.terms.maintenance
  haircutRate := if p.position.paysNotional then p.terms.haircut else 0
  option := p.option

def heldBack : Decimal := if p.isCollateral then multiply p.value p.terms.haircut else 0

end MarginedPosition

/-- What margin is computed from: the net asset value, the value of what is owed and is not
    collateral, and the margined positions, as the registry lists them. -/
structure MarginBook where
  nav : Decimal
  owed : Decimal := 0
  positions : List MarginedPosition
  model : Option MarginModel := none
  nodup : (positions.map (·.assetId)).Nodup

namespace MarginBook

variable (b : MarginBook)

def held : List MarginedPosition := b.positions.filter (·.position.quantity ≠ 0)

/-- The holdings in the order a liquidation reduces them: by priority, by what they require,
    by identifier. -/
def holdings : List MarginHolding :=
  sortBy (fun h : MarginHolding => toLex (h.priority, toLex (-h.initial, h.assetId)))
    (b.held.map (·.holding))

theorem holdings_perm : b.holdings.Perm (b.held.map (·.holding)) := sortBy_perm _ _

theorem holdings_nodup : (b.holdings.map (·.assetId)).Nodup := by
  rw [(b.holdings_perm.map _).nodup_iff, List.map_map]
  exact (List.filter_sublist.map _).nodup b.nodup

/-- `margin_position`; none where nothing margined is held. -/
def marginPosition : Option MarginPosition :=
  if b.holdings = [] then none
  else
    let required : MarginRequirement := match b.model with
      | none => ⟨sumInContext (b.holdings.map (·.initial)),
          sumInContext (b.holdings.map (·.maintenance))⟩
      | some model => model (b.holdings.map fun h => h.exposure h.quantity)
    some {
      equity := subtract b.nav (add (sumInContext (b.held.map (·.heldBack))) b.owed)
      initial := required.initial
      maintenance := required.maintenance
      holdings := b.holdings
      model := b.model
      nodup := b.holdings_nodup }

end MarginBook

def SimulationConfig.liquidationStep (c : SimulationConfig) (h : MarginHolding) :
    Option Decimal :=
  c.tradingStep h.assetId h.quantity

namespace PipelineState

variable (s : PipelineState)

/-- `_holding_shares`: the strategies holding the holding's side, and their shares. -/
def holdingShares (h : MarginHolding) : List (String × Decimal) :=
  (s.allocation.sharesOf h.assetId).filter fun (_, share) =>
    share ≠ 0 && decide (0 < share) == decide (0 < h.quantity)

/-- Whether a holding can be sold: it is priced, and some strategy holds its side. -/
def sellable (h : MarginHolding) : Bool :=
  (s.marketPrices.get? h.assetId).isSome && s.holdingShares h ≠ []

end PipelineState

end AlphaLab
