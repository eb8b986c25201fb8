/-
  Interest and borrow fees accrued day by day (`portfolio/financing.py`, and `_interest`,
  `_borrow_fees` and `_accrue_day` of `backtesting/schedule.py`).

  * `accruedInterest` charges a balance band by band, `borrowFee` a short by its value;
  * every amount is computed through a rounding: `inContext` is the code's, `id` is exact
    arithmetic;
  * `daily_accruals_sum`: in exact arithmetic the days' accruals on constant terms sum to the
    period's, less one day's for a 30/360 period that ends on a 31st and starts before a 30th.
-/
import AlphaLab.Conventions.DayCount
import AlphaLab.Portfolio.Money

namespace AlphaLab

open CivilDate

/-! ## The terms -/

/-- `FinancingTier`: a rate, and the debit up to which it is charged. -/
structure FinancingTier where
  upTo : Option Decimal
  annualRate : Decimal
  ceiling_pos : ∀ ceiling ∈ upTo, 0 < ceiling := by simp
  rate_nonneg : 0 ≤ annualRate := by norm_num

/-- `require_tiers`: only the last tier has no ceiling, and the ceilings increase. -/
structure DebitTiers where
  tiers : List FinancingTier
  nonempty : tiers ≠ [] := by simp
  last_unbounded : ∀ tier ∈ tiers.getLast?, tier.upTo = none := by simp
  others_bounded : ∀ tier ∈ tiers.dropLast, tier.upTo ≠ none := by simp
  increasing : (tiers.filterMap (·.upTo)).Pairwise (· < ·) := by simp

/-- What a currency's balance is charged or earns: the debit tiers and the credit rate. -/
structure BalanceRates where
  debitTiers : DebitTiers
  creditRate : Option Decimal := none
  credit_nonneg : ∀ rate ∈ creditRate, 0 ≤ rate := by simp

/-- `ScheduledInterest`: a period and its terms. -/
structure ScheduledInterest where
  start : CivilDate
  «end» : CivilDate
  dayCount : DayCount
  rates : BalanceRates
  forward : 0 < dayCountDays start «end» dayCount

structure RateChange where
  effective : CivilDate
  rates : BalanceRates

/-- `DailyInterest`: a period whose interest accrues day by day. -/
structure DailyInterest where
  interest : ScheduledInterest
  changes : List RateChange := []
  increasing : changes.Pairwise (fun a b => a.effective < b.effective) := by simp

/-- `rates_on`: the rates in effect on a day, those of the last change effective by then. -/
def DailyInterest.ratesOn (daily : DailyInterest) (day : CivilDate) : BalanceRates :=
  (daily.changes.takeWhile fun change => ¬ day < change.effective).getLast?.elim
    daily.interest.rates (·.rates)

structure ChargedShort where
  quantity : Decimal
  multiplier : Decimal
  mark : Decimal
  annualRate : Decimal

/-! ## The amounts -/

section Rounded

-- what every amount is rounded to
variable (ρ : Decimal → Decimal)

/-- `_day_weight`: a number of days as a part of the basis's year. -/
def yearPart (days : ℤ) (basis : DayCount) : Decimal := ρ (days / daysInYear basis)

/-- `day_fraction`: refused for a period that counts no days. -/
def dayFraction (start «end» : CivilDate) (basis : DayCount) : Option Decimal :=
  let days := dayCountDays start «end» basis
  if days ≤ 0 then none else some (yearPart ρ days basis)

def chargedFrom (debit floor charged : Decimal) : List FinancingTier → Decimal
  | [] => charged
  | tier :: tiers =>
    let ceiling := tier.upTo.elim debit (min debit)
    let charged := if floor < ceiling then
      ρ (charged + ρ (ρ (ceiling - floor) * tier.annualRate)) else charged
    match tier.upTo with
    | none => charged
    | some upTo => if debit ≤ upTo then charged else chargedFrom debit upTo charged tiers

/-- `accrued_interest`: a debit is charged, a credit earns the credit rate. -/
def accruedInterest (balance : Decimal) (rates : BalanceRates) (fraction : Decimal) : Decimal :=
  if 0 < balance then
    rates.creditRate.elim 0 fun rate => ρ (ρ (balance * rate) * fraction)
  else -ρ (chargedFrom ρ |balance| 0 0 rates.debitTiers.tiers * fraction)

/-- `_interest`: the interest of a period on a balance. -/
def ScheduledInterest.amount (item : ScheduledInterest) (balance : Decimal) : Decimal :=
  accruedInterest ρ balance item.rates
    (yearPart ρ (dayCountDays item.start item.end item.dayCount) item.dayCount)

/-- A short's fee for a part of a year (`_borrow_fees` and `_accrue_day`). -/
def ChargedShort.fee (short : ChargedShort) (fraction : Decimal) : Decimal :=
  -ρ (ρ (ρ (ρ (|short.quantity| * short.multiplier) * short.mark) * short.annualRate) * fraction)

def dayWeight (day : CivilDate) (basis : DayCount) : Decimal :=
  yearPart ρ (dayCountDays day day.next basis) basis

/-- `_accrue_day`: the interest of one day on a balance. -/
def DailyInterest.accrual (daily : DailyInterest) (balance : Decimal) (day : CivilDate) :
    Decimal :=
  accruedInterest ρ balance (daily.ratesOn day) (dayWeight ρ day daily.interest.dayCount)

end Rounded

/-! ## The days' accruals and the period's -/

theorem accruedInterest_mul (balance : Decimal) (rates : BalanceRates) (fraction : Decimal) :
    accruedInterest id balance rates fraction = accruedInterest id balance rates 1 * fraction := by
  unfold accruedInterest
  split_ifs
  · cases rates.creditRate <;> simp
  · simp only [id_eq, mul_one, neg_mul]

theorem ChargedShort.fee_mul (short : ChargedShort) (fraction : Decimal) :
    short.fee id fraction = short.fee id 1 * fraction := by
  simp only [ChargedShort.fee, id_eq, mul_one, neg_mul]

/-- The days' parts of a year sum to the part the days are counted as. -/
theorem sum_dayWeight {start «end» : CivilDate} (h : start < «end») (basis : DayCount)
    (yearly : Decimal) :
    ((periodDays start «end»).map fun d => yearly * dayWeight id d basis).sum =
      yearly * yearPart id (dayCountDays start «end» basis) basis -
        if EndsShort start «end» basis then yearly * yearPart id 1 basis else 0 := by
  have hdays := congrArg (fun n : ℤ => (n : Decimal)) (sum_dayCountDays h basis)
  simp only [Int.cast_sub, Int.cast_ite, Int.cast_one, Int.cast_zero] at hdays
  have hparts : ((periodDays start «end»).map fun d => yearly * dayWeight id d basis) =
      ((periodDays start «end»).map fun d => (dayCountDays d d.next basis : Decimal)).map
        fun days => days * (yearly / daysInYear basis) := by
    rw [List.map_map]
    refine List.map_congr_left fun d _ => ?_
    simp only [Function.comp_apply, dayWeight, yearPart, id_eq]
    ring
  have hcast : ((periodDays start «end»).map fun d => (dayCountDays d d.next basis : Decimal)).sum =
      (((periodDays start «end»).map fun d => dayCountDays d d.next basis).sum : ℤ) := by
    rw [Int.cast_list_sum, List.map_map]
    rfl
  rw [hparts, List.sum_map_mul_right, List.map_id', hcast, hdays]
  simp only [yearPart, id_eq]
  split_ifs <;> push_cast <;> ring

/-- **The days' accruals sum to the period's**, in their days and, in exact arithmetic, in their
    amounts; a 30/360 period that ends on a 31st and starts before a 30th is one day short. -/
theorem daily_accruals_sum {start «end» : CivilDate} (h : start < «end») :
    (∀ basis, ((periodDays start «end»).map fun d => dayCountDays d d.next basis).sum =
        dayCountDays start «end» basis - if EndsShort start «end» basis then 1 else 0) ∧
    (∀ (daily : DailyInterest) (balance : Decimal), daily.interest.start = start →
      daily.interest.end = «end» →
      (∀ d ∈ periodDays start «end», daily.ratesOn d = daily.interest.rates) →
      ((periodDays start «end»).map (daily.accrual id balance)).sum =
        daily.interest.amount id balance -
          if EndsShort start «end» daily.interest.dayCount then
            accruedInterest id balance daily.interest.rates (yearPart id 1 daily.interest.dayCount)
          else 0) ∧
    (∀ (short : ChargedShort) (basis : DayCount) (fraction : Decimal),
      dayFraction id start «end» basis = some fraction →
      ((periodDays start «end»).map fun d => short.fee id (dayWeight id d basis)).sum =
        short.fee id fraction -
          if EndsShort start «end» basis then short.fee id (yearPart id 1 basis) else 0) := by
  refine ⟨sum_dayCountDays h, ?_, ?_⟩
  · rintro daily balance rfl rfl hrates
    have haccruals : (periodDays daily.interest.start daily.interest.end).map
        (daily.accrual id balance) =
        (periodDays daily.interest.start daily.interest.end).map fun d =>
          accruedInterest id balance daily.interest.rates 1 *
            dayWeight id d daily.interest.dayCount := by
      refine List.map_congr_left fun d hd => ?_
      rw [DailyInterest.accrual, hrates d hd, accruedInterest_mul]
    rw [haccruals, sum_dayWeight h, ScheduledInterest.amount,
      accruedInterest_mul balance _ (yearPart id (dayCountDays _ _ _) _),
      accruedInterest_mul balance _ (yearPart id 1 _)]
  · intro short basis fraction hfraction
    obtain ⟨-, hpart⟩ := Option.ite_none_left_eq_some.mp hfraction
    obtain rfl := Option.some.inj hpart
    simp only [short.fee_mul (dayWeight _ _ _), short.fee_mul (yearPart _ _ _)]
    exact sum_dayWeight h basis _

/-- From the middle of January to its last day, 30/360 counts sixteen days, and fifteen one at a
    time: the 31st is counted by the period and by none of its days. -/
theorem half_january_ends_short :
    let start : CivilDate := { year := 2025, month := 1, day := 15 }
    let «end» : CivilDate := { year := 2025, month := 1, day := 31 }
    start < «end» ∧ dayCountDays start «end» .thirty360Us = 16 ∧
      ((periodDays start «end»).map fun d => dayCountDays d d.next .thirty360Us).sum = 15 := by
  decide +kernel

/-- A debit of 7,300 financed at five per cent from the middle of January to the middle of
    February, and a short of that value lent at the same rate. -/
theorem month_accruals_sum :
    let start : CivilDate := { year := 2025, month := 1, day := 15 }
    let «end» : CivilDate := { year := 2025, month := 2, day := 15 }
    let tiers : DebitTiers := { tiers := [{ upTo := none, annualRate := 1 / 20 }] }
    let rates : BalanceRates := { debitTiers := tiers }
    let daily : DailyInterest := { interest := ⟨start, «end», .act365Fixed, rates, by decide⟩ }
    ((periodDays start «end»).map (daily.accrual id (-7300))).sum = -31 ∧
      ((periodDays start «end»).map fun d =>
        ChargedShort.fee id ⟨-73, 1, 100, 1 / 20⟩ (dayWeight id d .act365Fixed)).sum = -31 := by
  intro start «end» tiers rates daily
  obtain ⟨-, hinterest, hfee⟩ := daily_accruals_sum (show start < «end» by decide)
  refine ⟨?_, ?_⟩
  · rw [hinterest daily (-7300) rfl rfl fun d _ => rfl]
    decide +kernel
  · rw [hfee ⟨-73, 1, 100, 1 / 20⟩ .act365Fixed (31 / 365) (by decide +kernel)]
    decide +kernel

end AlphaLab
