/-
  Line items of financial statements (`alt_data/fundamentals.py`).

  A `FundamentalObservation` is one line item of one statement for one fiscal period, as one
  publication stated it; a restatement is a revision of the same figure.
-/
import AlphaLab.AltData.Records

namespace AlphaLab

inductive StatementType where
  | incomeStatement
  | balanceSheet
  | cashFlowStatement
deriving DecidableEq

def StatementType.name : StatementType → String
  | incomeStatement => "INCOME_STATEMENT"
  | balanceSheet => "BALANCE_SHEET"
  | cashFlowStatement => "CASH_FLOW_STATEMENT"

/-- `is_duration`: whether the items are flows over the period rather than levels. -/
def StatementType.isDuration (s : StatementType) : Bool := s ≠ balanceSheet

/-- `FiscalPeriod`: a fiscal year, or a quarter of one. -/
structure FiscalPeriod where
  fiscalYear : ℤ
  fiscalQuarter : Option ℕ
  start : Instant
  «end» : Instant
  quarter : ∀ q ∈ fiscalQuarter, 1 ≤ q ∧ q ≤ 4
  span : start < «end»
deriving DecidableEq

namespace FiscalPeriod

variable (p : FiscalPeriod)

def labelOf (fiscalYear : ℤ) : Option ℕ → String
  | none => "FY" ++ toString fiscalYear
  | some q => "FY" ++ toString fiscalYear ++ "Q" ++ toString q

def label : String := labelOf p.fiscalYear p.fiscalQuarter

def isAnnual : Bool := p.fiscalQuarter.isNone

def quarterOrdinal : ℤ := p.fiscalYear * 4 + ((p.fiscalQuarter.getD 1 : ℕ) - 1)

end FiscalPeriod

/-- `FundamentalObservation`.  Its identity is a digest of the other fields. -/
structure FundamentalObservation where
  subject : String
  statement : StatementType
  lineItem : String
  fiscalPeriod : FiscalPeriod
  value : Decimal
  unit : String
  publishedAt : Instant
  stamp : PointInTimeStamp
  source : ObservationSource
  revision : ℕ
  recordId : String
  observed : stamp.observedAt = fiscalPeriod.end
  finished : fiscalPeriod.end ≤ publishedAt
  published : ∀ a ∈ stamp.availableAt, publishedAt ≤ a
deriving DecidableEq

/-- `repr` of a version.  Escapes are not written. -/
def reprVersion : Option String → String
  | none => "None"
  | some version => "'" ++ version ++ "'"

namespace FundamentalObservation

variable (r : FundamentalObservation)

def seriesKey : List String :=
  [r.source.sourceId, reprVersion r.source.version, r.subject, r.statement.name, r.lineItem]

def vintageKey : List String := r.seriesKey ++ [r.fiscalPeriod.label]

instance : SetRecord FundamentalObservation where
  stamp r := r.stamp
  recordId r := r.recordId
  subject r := r.subject
  revision r := r.revision
  seriesKey := seriesKey
  vintageKey := vintageKey
  source r := r.source
  recordScheme _ := "alphalab.fundamental.v1"

end FundamentalObservation

def revenueFiled (fiscalYear : ℤ) (quarter revision : ℕ) («end» publishedAt : Instant)
    (available : Option Instant) (recordId : String)
    (hquarter : decide (1 ≤ quarter ∧ quarter ≤ 4) = true) (hspan : decide (0 < «end») = true)
    (hfinished : decide («end» ≤ publishedAt) = true)
    (havailable : available.all (fun a => decide (publishedAt ≤ a)) = true) :
    FundamentalObservation where
  subject := "ISSUER"
  statement := .incomeStatement
  lineItem := "revenue"
  fiscalPeriod := ⟨fiscalYear, some quarter, 0, «end», by simpa using hquarter, by simpa using hspan⟩
  value := 100
  unit := "USD"
  publishedAt := publishedAt
  stamp := ⟨«end», available, none, fun a ha => (of_decide_eq_true hfinished).trans
    (of_decide_eq_true ((Option.all_eq_true _ _).mp havailable a ha)), by simp⟩
  source := ⟨"filings", none, none, none⟩
  revision := revision
  recordId := recordId
  observed := rfl
  finished := of_decide_eq_true hfinished
  published a ha := of_decide_eq_true ((Option.all_eq_true _ _).mp havailable a ha)

def revenueRestated (revision : ℕ) (available : Option Instant) (recordId : String)
    (h : available.all (fun a => decide (1 ≤ a)) = true := by exact Eq.refl true) :
    FundamentalObservation :=
  revenueFiled 2024 1 revision 1 1 available recordId (Eq.refl true) (Eq.refl true) (Eq.refl true) h

/-- A quarter's revenue, available as it is published. -/
def quarterFiled (fiscalYear : ℤ) (quarter revision : ℕ) («end» available : Instant)
    (recordId : String)
    (hquarter : decide (1 ≤ quarter ∧ quarter ≤ 4) = true := by exact Eq.refl true)
    (hspan : decide (0 < «end») = true := by exact Eq.refl true)
    (hfinished : decide («end» ≤ available) = true := by exact Eq.refl true) :
    FundamentalObservation :=
  revenueFiled fiscalYear quarter revision «end» available (some available) recordId hquarter hspan
    hfinished (by simp)

end AlphaLab
