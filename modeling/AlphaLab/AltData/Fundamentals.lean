/-
  Fundamentals as they were knowable at an instant (`alt_data/fundamentals.py`).

  * `fundamentalAsOf`, `latestFundamental` and `statementAsOf` read figures;
  * `trailingTwelveMonths` and `yearOverYearGrowth` compute from them, `fundamentalInputsAsOf`
    names what is read.

  Arithmetic is of 28 significant digits.
-/
import AlphaLab.Lib.SignificantDigits
import AlphaLab.AltData.Views
import AlphaLab.AltData.FundamentalRecords

namespace AlphaLab

open Fallible SetRecord

def inFundamentals (x : Decimal) : Decimal := Rounding.roundSig 10 28 x

section
variable (view : ObservationView FundamentalObservation) (subject : String)
  (statement : StatementType) (lineItem : String) (asOf : Instant) (policy : VintagePolicy)

/-- `_series_keys` -/
def fundamentalKeys (lineItem : Option String) : List (List String) :=
  view.seriesKeys.filter fun key =>
    key[2]? = some subject ∧ key[3]? = some statement.name ∧ ∀ item ∈ lineItem, key[4]? = some item

def fundamentalAsOf (fiscalPeriodLabel : String) : Option FundamentalObservation :=
  (fundamentalKeys view subject statement (some lineItem)).findSome? fun key =>
    view.vintageAsOf (key ++ [fiscalPeriodLabel]) asOf policy

def latestPeriod (annual : Option Bool) (records : List FundamentalObservation) :
    Option FundamentalObservation :=
  maxBy (fun r => toLex (r.fiscalPeriod.end, toLex (r.fiscalPeriod.start, r.recordId)))
    (records.filter fun r => ∀ wanted ∈ annual, r.fiscalPeriod.isAnnual = wanted)

/-- The figures of a line item, one a period, as a policy reads them. -/
def chosenFigures : Except ObservationView.NoSeries (List FundamentalObservation) := do
  let visible ← (fundamentalKeys view subject statement (some lineItem)).mapM fun key =>
    view.visibleInSeries key asOf
  .ok (visible.flatMap (chosen policy))

def latestFundamental (annual : Option Bool) :
    Except ObservationView.NoSeries (Option FundamentalObservation) := do
  let candidates ← chosenFigures view subject statement lineItem asOf policy
  .ok (latestPeriod annual candidates)

structure FinancialStatement where
  subject : String
  statement : StatementType
  fiscalPeriod : FiscalPeriod
  asOf : Instant
  policy : VintagePolicy
  items : Dict String FundamentalObservation

structure SpansDisagree where
  spans : List (Instant × Instant)

def statementItems (fiscalPeriodLabel : String) : Dict String FundamentalObservation :=
  ((fundamentalKeys view subject statement none).filterMap fun key =>
    view.vintageAsOf (key ++ [fiscalPeriodLabel]) asOf policy).foldl
      (fun items found => items.set found.lineItem found) Dict.empty

def statementAsOf (fiscalPeriodLabel : String) :
    Except SpansDisagree (Option FinancialStatement) :=
  let items := statementItems view subject statement asOf policy fiscalPeriodLabel
  match (items.values.map (·.fiscalPeriod)).eraseDups with
  | [] => .ok none
  | [period] => .ok (some ⟨subject, statement, period, asOf, policy, items.sorted⟩)
  | periods => .error ⟨sortBy (fun s => toLex s) (periods.map fun p => (p.start, p.end))⟩

/-! ## Twelve months -/

inductive TrailingReason where
  | tooFew (quarters : ℕ)
  | notConsecutive (labels : List String)
  | units (units : List String)

/-- `TrailingValue`: the sum and its unit with the records behind it, or why there is none. -/
structure TrailingValue where
  subject : String
  lineItem : String
  asOf : Instant
  periods : List String
  value : Except TrailingReason (Decimal × String × List String)

def latestQuarters (chosen : List FundamentalObservation) : List FundamentalObservation :=
  let quarters := sortBy (fun r => r.fiscalPeriod.quarterOrdinal)
    (chosen.filter fun r => ¬ r.fiscalPeriod.isAnnual)
  quarters.drop (quarters.length - 4)

def sumQuarters (latest : List FundamentalObservation) :
    Except TrailingReason (Decimal × String × List String) :=
  let ordinals := latest.map fun r => r.fiscalPeriod.quarterOrdinal
  if latest.length < 4 then .error (.tooFew latest.length)
  else if ordinals ≠ (List.range 4).map fun i : ℕ => ordinals.headD 0 + (i : ℤ) then
    .error (.notConsecutive (latest.map (·.fiscalPeriod.label)))
  else
    match (latest.map (·.unit)).eraseDups with
    | [unit] =>
      .ok (latest.foldl (fun total r => inFundamentals (total + r.value)) 0, unit,
        latest.map (·.recordId))
    | units => .error (.units (sortBy id units))

def trailing (chosen : List FundamentalObservation) : TrailingValue where
  subject := subject
  lineItem := lineItem
  asOf := asOf
  periods := (latestQuarters chosen).map (·.fiscalPeriod.label)
  value := sumQuarters (latestQuarters chosen)

inductive FundamentalRefusal where
  | balanceSheet (lineItem : String)
  | noSeries (e : ObservationView.NoSeries)
  | noInput
  | sharedName (names : List String)

def requireFlow : Except FundamentalRefusal Unit :=
  require statement.isDuration (.balanceSheet lineItem)

def trailingTwelveMonths : Except FundamentalRefusal TrailingValue := do
  requireFlow statement lineItem
  let chosen ← (chosenFigures view subject statement lineItem asOf policy).mapError .noSeries
  .ok (trailing subject lineItem asOf chosen)

inductive GrowthReason where
  | unknown
  | priorUnknown (label : String)
  | units (prior current : String)
  | base (value : Decimal)

structure GrowthValue where
  subject : String
  lineItem : String
  asOf : Instant
  current : Option FundamentalObservation
  prior : Option FundamentalObservation
  growth : Except GrowthReason Decimal

def growthOf (current prior : FundamentalObservation) : Except GrowthReason Decimal :=
  if prior.unit ≠ current.unit then .error (.units prior.unit current.unit)
  else if prior.value ≤ 0 then .error (.base prior.value)
  else .ok (inFundamentals (inFundamentals (current.value / prior.value) - 1))

def yearOverYearGrowth (annual : Bool) : Except ObservationView.NoSeries GrowthValue := do
  let current ← latestFundamental view subject statement lineItem asOf policy (some annual)
  match current with
  | none => .ok ⟨subject, lineItem, asOf, none, none, .error .unknown⟩
  | some current =>
    let period := current.fiscalPeriod
    let priorLabel := FiscalPeriod.labelOf (period.fiscalYear - 1) period.fiscalQuarter
    match fundamentalAsOf view subject statement lineItem asOf policy priorLabel with
    | none => .ok ⟨subject, lineItem, asOf, some current, none, .error (.priorUnknown priorLabel)⟩
    | some prior => .ok ⟨subject, lineItem, asOf, some current, some prior, growthOf current prior⟩

end

/-! ## Inputs -/

inductive Aggregation where
  | latest
  | latestAnnual
  | trailingTwelveMonths
deriving DecidableEq

/-- Which periods an aggregation other than twelve months reads. -/
def Aggregation.annual : Aggregation → Option Bool
  | latestAnnual => some true
  | _ => none

structure FundamentalInput where
  name : String
  statement : StatementType
  lineItem : String
  aggregation : Aggregation
  flow : aggregation = .trailingTwelveMonths → statement.isDuration

inductive MissingReason where
  | unknown (lineItem : String)
  | trailing (reason : TrailingReason)

structure FundamentalInputs where
  subject : String
  asOf : Instant
  visibility : VisibilityRule
  policy : VintagePolicy
  values : Dict String Decimal
  units : Dict String String
  recordIds : Dict String (List String)
  observedAt : Dict String Instant
  missing : Dict String MissingReason

section
variable (view : ObservationView FundamentalObservation) (subject : String) (asOf : Instant)
  (policy : VintagePolicy)

/-- `acc` with an input that is defined. -/
def FundamentalInputs.define (acc : FundamentalInputs) (name : String) (value : Decimal)
    (unit : String) (recordIds : List String) (observed : Option Instant) : FundamentalInputs :=
  { acc with
    values := acc.values.set name value
    units := acc.units.set name unit
    recordIds := acc.recordIds.set name recordIds
    observedAt := observed.elim acc.observedAt (acc.observedAt.set name) }

/-- `acc` with an input that is not. -/
def FundamentalInputs.lack (acc : FundamentalInputs) (name : String) (reason : MissingReason) :
    FundamentalInputs :=
  { acc with missing := acc.missing.set name reason }

/-- One input of `fundamental_inputs_as_of`. -/
def readInput (acc : FundamentalInputs) (spec : FundamentalInput) :
    Except FundamentalRefusal FundamentalInputs :=
  let latest (annual : Option Bool) :=
    (latestFundamental view subject spec.statement spec.lineItem asOf policy annual).mapError
      .noSeries
  match spec.aggregation with
  | .trailingTwelveMonths => do
    let trailing ← trailingTwelveMonths view subject spec.statement spec.lineItem asOf policy
    match trailing.value with
    | .error reason => .ok (acc.lack spec.name (.trailing reason))
    | .ok (value, unit, recordIds) => do
      let last ← latest (some false)
      .ok (acc.define spec.name value unit recordIds (last.map (·.fiscalPeriod.end)))
  | aggregation => do
    match ← latest aggregation.annual with
    | none => .ok (acc.lack spec.name (.unknown spec.lineItem))
    | some r =>
      .ok (acc.define spec.name r.value r.unit [r.recordId] (some r.fiscalPeriod.end))

def fundamentalInputsAsOf (inputs : List FundamentalInput) :
    Except FundamentalRefusal FundamentalInputs := do
  require (inputs ≠ []) .noInput
  require ((inputs.map (·.name)).Nodup) (.sharedName (sortBy id (inputs.map (·.name))))
  inputs.foldlM (readInput view subject asOf policy)
    ⟨subject, asOf, view.visibility, policy, .empty, .empty, .empty, .empty, .empty⟩

/-! ## Timelines -/

/-- `AggregateStep`: the value and its unit, or why there is none. -/
structure AggregateStep where
  knownAt : Instant
  value : Except MissingReason (Decimal × String)
  observedAt : Option Instant
  recordIds : List String

def aggregateStep (spec : FundamentalInput) (instant : Instant)
    (chosen : List FundamentalObservation) : AggregateStep :=
  match spec.aggregation with
  | .trailingTwelveMonths =>
    let last := (latestPeriod (some false) chosen).map (·.fiscalPeriod.end)
    match (trailing subject spec.lineItem instant chosen).value with
    | .error reason => ⟨instant, .error (.trailing reason), last, []⟩
    | .ok (value, unit, recordIds) => ⟨instant, .ok (value, unit), last, recordIds⟩
  | aggregation =>
    match latestPeriod aggregation.annual chosen with
    | none => ⟨instant, .error (.unknown spec.lineItem), none, []⟩
    | some r => ⟨instant, .ok (r.value, r.unit), some r.fiscalPeriod.end, [r.recordId]⟩

/-- One record of `aggregate_timeline`. -/
def holdPeriod (perPeriod : Dict String FundamentalObservation) (r : FundamentalObservation) :
    Dict String FundamentalObservation :=
  if policy = .original ∧ r.revision ≠ 0 then perPeriod
  else
    match perPeriod.get? r.fiscalPeriod.label with
    | none => perPeriod.set r.fiscalPeriod.label r
    | some held =>
      if policy = .asKnown ∧ held.revision < r.revision then
        perPeriod.set r.fiscalPeriod.label r
      else perPeriod

def AggregateStep.reads (step : AggregateStep) : Option Decimal × List String :=
  (step.value.toOption.map Prod.fst, step.recordIds)

/-- One instant of `aggregate_timeline`, once its records are taken. -/
def appendStep (spec : FundamentalInput) (instant : Instant)
    (perPeriod : Dict String FundamentalObservation) (steps : List AggregateStep) :
    List AggregateStep :=
  let step := aggregateStep subject spec instant perPeriod.values
  if steps.getLast?.map AggregateStep.reads = some step.reads then steps else steps ++ [step]

def arrivals (statement : StatementType) (lineItem : String) :
    Except ObservationView.NoSeries (List (Instant × FundamentalObservation)) := do
  let indexes ← (fundamentalKeys view subject statement (some lineItem)).mapM view.indexOf
  .ok (sortBy (fun e => toLex (e.1, e.2.recordId)) (indexes.flatMap (·.known)))

def aggregateTimeline (spec : FundamentalInput) : Except FundamentalRefusal (List AggregateStep) :=
  do
  if spec.aggregation = .trailingTwelveMonths then requireFlow spec.statement spec.lineItem
  let arriving ← (arrivals view subject spec.statement spec.lineItem).mapError .noSeries
  .ok (sweep (holdPeriod policy) (appendStep subject spec) arriving .empty [])

end

end AlphaLab
