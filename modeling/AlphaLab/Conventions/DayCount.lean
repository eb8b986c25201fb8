/-
  Day counts (`conventions/daycount.py`).

  * `dayCountDays` is how many days a basis counts between two dates;
  * `EndsShort` is a 30/360 period that ends on a 31st and starts before a 30th;
    `sum_dayCountDays`: the days of a period counted one at a time are the days counted for the
    period, or one less where it ends short.
-/
import AlphaLab.Lib.CivilDate
import Mathlib.Algebra.BigOperators.Group.List.Basic
import Mathlib.Algebra.Order.Group.Int
import Mathlib.Tactic.Abel

namespace AlphaLab

open CivilDate

inductive DayCount where
  | act365Fixed
  | act360
  | thirty360Us
deriving DecidableEq

def daysInYear : DayCount → ℕ
  | .act365Fixed => 365
  | .act360 => 360
  | .thirty360Us => 360

/-- `day_count_days`: the days a basis counts between two dates. -/
def dayCountDays (start «end» : CivilDate) : DayCount → ℤ
  | .thirty360Us =>
    let d1 := if start.day = 31 then 30 else start.day
    let d2 := if «end».day = 31 ∧ d1 = 30 then 30 else «end».day
    360 * («end».year - start.year) + 30 * ((«end».month : ℤ) - start.month) + ((d2 : ℤ) - d1)
  | _ => «end».ordinal - start.ordinal

/-- `_days`: the days of a period. -/
def periodDays (start «end» : CivilDate) : List CivilDate :=
  (List.range («end».ordinal - start.ordinal).toNat).map start.addDays

/-! ## Counting one day at a time -/

/-- The number a basis gives a date: a 31st is a 30th where months have 30 days. -/
def serial (d : CivilDate) : DayCount → ℤ
  | .thirty360Us => 360 * d.year + 30 * d.month + min d.day 30
  | _ => d.ordinal

/-- A 30/360 period that ends on a 31st and starts before a 30th: its last day is counted. -/
def EndsShort (start «end» : CivilDate) (basis : DayCount) : Prop :=
  basis = .thirty360Us ∧ «end».day = 31 ∧ start.day < 30

instance (start «end» : CivilDate) (basis : DayCount) : Decidable (EndsShort start «end» basis) :=
  inferInstanceAs (Decidable (_ ∧ _))

theorem day_le_31 (d : CivilDate) : d.day ≤ 31 := d.day_le.trans (daysInMonth_le _ _)

theorem dayCountDays_eq (start «end» : CivilDate) (basis : DayCount) :
    dayCountDays start «end» basis =
      serial «end» basis - serial start basis + if EndsShort start «end» basis then 1 else 0 := by
  have hstart := day_le_31 start
  have hend := day_le_31 «end»
  cases basis with
  | thirty360Us =>
    simp only [dayCountDays, serial, EndsShort, true_and]
    split_ifs <;> omega
  | act365Fixed => simp [dayCountDays, serial, EndsShort]
  | act360 => simp [dayCountDays, serial, EndsShort]

theorem next_day_of_lt {d : CivilDate} (h : d.day < 30) : d.next.day ≠ 31 := by
  unfold next
  split_ifs
  · simp only
    omega
  · exact (by decide : (1 : ℕ) ≠ 31)
  · exact (by decide : (1 : ℕ) ≠ 31)

theorem dayCountDays_next (d : CivilDate) (basis : DayCount) :
    dayCountDays d d.next basis = serial d.next basis - serial d basis := by
  rw [dayCountDays_eq, if_neg, add_zero]
  rintro ⟨-, hend, hstart⟩
  exact next_day_of_lt hstart hend

theorem sum_periodDays {G : Type*} [AddCommGroup G] (f : CivilDate → G) {start «end» : CivilDate}
    (h : start < «end») :
    ((periodDays start «end»).map fun d => f d.next - f d).sum = f «end» - f start := by
  have hsteps : ∀ n, (((List.range n).map start.addDays).map fun d => f d.next - f d).sum =
      f (start.addDays n) - f start := by
    intro n
    induction n with
    | zero => simp [addDays]
    | succ n ih =>
      rw [List.range_succ, List.map_append, List.map_append, List.sum_append, ih]
      simp only [List.map_cons, List.map_nil, List.sum_singleton, addDays_succ]
      abel
  rw [periodDays, hsteps, addDays_ordinal_sub h]

/-- **The days counted one at a time**: as many as the period's, or one less where it ends
    short. -/
theorem sum_dayCountDays {start «end» : CivilDate} (h : start < «end») (basis : DayCount) :
    ((periodDays start «end»).map fun d => dayCountDays d d.next basis).sum =
      dayCountDays start «end» basis - if EndsShort start «end» basis then 1 else 0 := by
  have hnext : (fun d => dayCountDays d d.next basis) =
      fun d => serial d.next basis - serial d basis := funext fun d => dayCountDays_next d basis
  rw [hnext, sum_periodDays (fun d => serial d basis) h, dayCountDays_eq, add_sub_cancel_right]

end AlphaLab
