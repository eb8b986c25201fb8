/-
  What a contract's declaration says happens to it (`instrument/terms.py`,
  `instrument/record.py`), and the run's configuration that reads it.

  * `OptionTerms` and `FutureTerms` are the declared terms; `effective` is the
    terms in force at an instant;
  * `ContractRecord` is an instrument's record with them: its terms belong to it;
  * `RunConfig` holds the registry; `economicsOf` is what the execution path books
    a fill by.
-/
import AlphaLab.Runtime.PipelineCalls

namespace AlphaLab

open Fallible

/-! ## Terms -/

/-- `Deliverable`: the units of an instrument one contract delivers. -/
structure Deliverable where
  assetId : String
  units : Decimal
  units_pos : 0 < units

inductive OptionType where
  | call | put
deriving DecidableEq

inductive SettlementStyle where
  | cash | physical
deriving DecidableEq

inductive ExerciseStyle where
  | american | european | bermudan
deriving DecidableEq

structure AutomaticExercise where
  threshold : Decimal
  threshold_nonneg : 0 ≤ threshold

/-- Whether an option `intrinsic` in the money is exercised. -/
def AutomaticExercise.exercises (rule : AutomaticExercise) (intrinsic : Decimal) : Bool :=
  0 < intrinsic ∧ rule.threshold ≤ intrinsic

/-- `CashInLieu`: no price is the last one observed. -/
structure CashInLieu where
  price : Option Decimal := none
  price_pos : ∀ p ∈ price, 0 < p := by simp

def Distinct (deliverables : List Deliverable) : Prop :=
  (deliverables.map (·.assetId)).Nodup

structure TermsAdjustment where
  effectiveAt : Instant
  strike : Decimal
  deliverable : Deliverable
  basket : List Deliverable := []
  cashPerContract : Decimal := 0
  strike_pos : 0 < strike
  distinct : Distinct (deliverable :: basket) := by simp [Distinct]
  cash_nonneg : 0 ≤ cashPerContract := by simp

theorem unadjusted : ([] : List TermsAdjustment).Pairwise (fun a b => a.effectiveAt < b.effectiveAt) :=
  .nil

structure OptionTerms where
  optionType : OptionType
  strike : Decimal
  exerciseStyle : ExerciseStyle
  settlement : SettlementStyle
  deliverable : Deliverable
  expiresAt : Instant
  automaticExercise : Option AutomaticExercise
  exercisableFrom : Option Instant := none
  basket : List Deliverable := []
  cashPerContract : Decimal := 0
  considerationCurrency : Option String := none
  fractions : Option CashInLieu := none
  exerciseWindows : List (Instant × Instant) := []
  considerationRate : Option Decimal := none
  adjustments : List TermsAdjustment := []
  strike_pos : 0 < strike
  exercisable_american : ∀ first ∈ exercisableFrom,
    exerciseStyle = .american ∧ first ≤ expiresAt := by simp
  distinct : Distinct (deliverable :: basket) := by simp [Distinct]
  cash_nonneg : 0 ≤ cashPerContract := by simp
  rate_pos : ∀ rate ∈ considerationRate, 0 < rate ∧ considerationCurrency.isSome := by simp
  windows_bermudan : exerciseStyle = .bermudan ↔ exerciseWindows ≠ [] := by simp
  windows_ordered : exerciseWindows.Pairwise (fun a b => a.2 < b.1) ∧
    ∀ w ∈ exerciseWindows, w.1 ≤ w.2 := by simp
  windows_last : ∀ w ∈ exerciseWindows.getLast?, w.2 = expiresAt := by simp
  adjustments_ordered : adjustments.Pairwise (fun a b => a.effectiveAt < b.effectiveAt) := by
    first | exact unadjusted | simp
  adjustments_before : ∀ a ∈ adjustments, a.effectiveAt ≤ expiresAt := by simp

namespace OptionTerms

variable (t : OptionTerms)

def deliverables : List Deliverable := t.deliverable :: t.basket

/-- Whether it delivers one instrument and nothing else, in its own currency. -/
def isSingle : Bool :=
  t.basket.isEmpty && decide (t.cashPerContract = 0) && t.considerationCurrency.isNone &&
    t.fractions.isNone

/-- Whether it delivers a basket or a cash component, which one value cannot state. -/
def packaged : Bool := !t.basket.isEmpty || decide (t.cashPerContract ≠ 0)

/-- `1` for a call, `-1` for a put. -/
def direction : Decimal := if t.optionType = .call then 1 else -1

/-- `effective`: the terms in force, the latest adjustment effective by then or these. -/
def effective (at_ : Instant) : OptionTerms :=
  match (t.adjustments.filter (·.effectiveAt ≤ at_)).getLast? with
  | none => t
  | some a => { t with
      strike := a.strike
      deliverable := a.deliverable
      basket := a.basket
      cashPerContract := a.cashPerContract
      adjustments := []
      strike_pos := a.strike_pos
      distinct := a.distinct
      cash_nonneg := a.cash_nonneg
      adjustments_ordered := unadjusted
      adjustments_before := by simp }

/-- `exercise_window`: no first instant is from whenever it is held. -/
def exerciseWindow (lastTradeAt : Instant) : Option Instant × Instant :=
  if t.exerciseStyle = .european then (some lastTradeAt, t.expiresAt)
  else (t.exercisableFrom, t.expiresAt)

def mayExercise (at_ lastTradeAt : Instant) : Bool :=
  if t.exerciseStyle = .bermudan then
    t.exerciseWindows.any fun w => decide (w.1 ≤ at_ ∧ at_ ≤ w.2)
  else
    let window := t.exerciseWindow lastTradeAt
    window.1.all (fun first => decide (first ≤ at_)) && decide (at_ ≤ window.2)

/-- What a contract worth `value` for each unit of its price pays, never negative. -/
def payoff (value : Decimal) : Decimal :=
  match t.optionType with
  | .call => max (subtract value t.strike) 0
  | .put => max (subtract t.strike value) 0

def packageValue (values multipliers : Dict String Decimal) : Decimal :=
  t.deliverables.foldl (fun total d => add total
    (multiply (multiply d.units ((values.get? d.assetId).getD 0))
      ((multipliers.get? d.assetId).getD 0))) t.cashPerContract

def basketIntrinsic (values multipliers : Dict String Decimal) (multiplier : Decimal) : Decimal :=
  t.payoff (divide (t.packageValue values multipliers) multiplier)

def intrinsic (underlyingValue multiplier deliverableMultiplier : Decimal) : Decimal :=
  t.payoff (divide (multiply (multiply underlyingValue t.deliverable.units) deliverableMultiplier)
    multiplier)

end OptionTerms

/-- `FutureTerms`: a physical one names its deliverable, a cash-settled one has none. -/
structure FutureTerms where
  settlement : SettlementStyle
  deliverable : Option Deliverable
  delivers : settlement = .physical ↔ deliverable.isSome

inductive ContractTerms where
  | option (terms : OptionTerms)
  | future (terms : FutureTerms)

namespace ContractTerms

def belongsTo : ContractTerms → AssetType × SettlementModel
  | option _ => (.option, .optionPremium)
  | future _ => (.future, .futuresVariation)

def deliverable : ContractTerms → Option Deliverable
  | option t => some t.deliverable
  | future t => t.deliverable

def expiresAt : ContractTerms → Option Instant
  | option t => some t.expiresAt
  | future _ => none

end ContractTerms

/-- `MarginTerms`, as far as what they let a run finance. -/
structure MarginTerms where
  purchaseOnMargin : Bool

structure ContractRecord extends InstrumentRecord where
  assetId : String
  lastTradeAt : Option Instant := none
  terms : Option ContractTerms := none
  margin : Option MarginTerms := none
  consistent : ∀ t ∈ terms, assetType = t.belongsTo.1 ∧
    economics.map (·.settlement) = some t.belongsTo.2 ∧
    (∃ last ∈ lastTradeAt, ∀ e ∈ t.expiresAt, last ≤ e) ∧
    ∀ d ∈ t.deliverable, d.assetId ≠ assetId := by simp

abbrev ContractRegistry := Register ContractRecord.assetId

/-! ## The run's configuration -/

/-- `ExecutionPipelineConfig`, as far as orders, holdings and contracts read it. -/
structure RunConfig where
  routing : ExecutionRouting := .simulated
  currency : String
  alsoSettles : List String := []
  budgetCurrency : String := ""
  instruments : Option ContractRegistry := none
  enforceIntegerQuantities : Bool := false
  allowShorting : Bool := true
  /-- `_settles_at`; `none` where the instrument needs a calendar nobody declared. -/
  settlesAt : String → Instant → Option (Option Instant) := fun _ _ => some none
  /-- `_require_initial_margin`, as a check of the state a delivery leaves. -/
  meetsInitialMargin : PipelineState → FxRates → Instant → Bool := fun _ _ _ => true

namespace RunConfig

variable (c : RunConfig)

def declared (assetId : String) : Option ContractRecord :=
  c.instruments.bind (·.get? assetId)

/-- `_economics_of`: what a record declares, unless it is a fully paid unit of one. -/
def economicsOf (assetId : String) : Option InstrumentEconomics :=
  ((c.declared assetId).bind (·.economics)).filter (· ≠ cashEquity)

def purchasedOnMargin (assetId : String) : Bool :=
  ((c.declared assetId).bind (·.margin)).any (·.purchaseOnMargin)

def pipeline : PipelineConfig where
  routing := c.routing
  settlementCurrencies := c.currency :: c.alsoSettles
  budgetCurrency := c.budgetCurrency
  economics := c.economicsOf
  settlesAt := c.settlesAt
  purchasedOnMargin := c.purchasedOnMargin

def exchangeRegistry : Option (Dict String InstrumentRecord) :=
  c.instruments.map fun registry => registry.dict.mapValues (·.toInstrumentRecord)

def exchangeContext (marketPrices : Dict String Decimal) : ExchangeContext where
  instruments := c.exchangeRegistry
  marketPrices := marketPrices
  enforceIntegerQuantities := c.enforceIntegerQuantities
  currency := c.currency
  alsoSettles := c.alsoSettles

end RunConfig

end AlphaLab
