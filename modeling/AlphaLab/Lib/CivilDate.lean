/-
  Dates of the proleptic Gregorian calendar.

  * `CivilDate` is a year, a month and a day of it; `ordinal` numbers the days;
  * `next` is the day after, `addDays` the day some days after;
  * `ordinal_next`, `ordinal_lt`: the ordinals count the days in their order.
-/
import Mathlib.Data.Int.ConditionallyCompleteOrder
import Mathlib.Data.Int.Order.Basic
import Mathlib.Logic.Function.Iterate
import Mathlib.Order.Monotone.Basic
import Mathlib.Order.Lattice
import Mathlib.Tactic.Linarith
import Mathlib.Tactic.Ring

def leapYear (year : ℤ) : Prop := year % 4 = 0 ∧ (year % 100 ≠ 0 ∨ year % 400 = 0)

instance (year : ℤ) : Decidable (leapYear year) := inferInstanceAs (Decidable (_ ∧ _))

def daysInMonth (year : ℤ) (month : ℕ) : ℕ :=
  if month = 2 then if leapYear year then 29 else 28
  else if month = 4 ∨ month = 6 ∨ month = 9 ∨ month = 11 then 30
  else 31

structure CivilDate where
  year : ℤ
  month : ℕ
  day : ℕ
  month_pos : 1 ≤ month := by decide
  month_le : month ≤ 12 := by decide
  day_pos : 1 ≤ day := by decide
  day_le : day ≤ daysInMonth year month := by decide

def daysBeforeYear (year : ℤ) : ℤ :=
  (year - 1) * 365 + (year - 1) / 4 - (year - 1) / 100 + (year - 1) / 400

def daysBeforeMonth (year : ℤ) : ℕ → ℕ
  | 0 | 1 => 0
  | month + 1 => daysBeforeMonth year month + daysInMonth year month

variable (year : ℤ) (month : ℕ)

theorem daysInMonth_pos : 28 ≤ daysInMonth year month := by
  unfold daysInMonth
  split_ifs <;> omega

theorem daysInMonth_le : daysInMonth year month ≤ 31 := by
  unfold daysInMonth
  split_ifs <;> omega

theorem daysBeforeYear_succ :
    daysBeforeYear (year + 1) = daysBeforeYear year + (if leapYear year then 366 else 365) := by
  unfold daysBeforeYear leapYear
  split_ifs with h <;> omega

theorem daysInMonth_of_leap {year : ℤ} (h : leapYear year) : daysInMonth year = daysInMonth 0 := by
  funext month
  simp only [daysInMonth, if_pos h, if_pos (show leapYear 0 by decide)]

theorem daysInMonth_of_common {year : ℤ} (h : ¬ leapYear year) :
    daysInMonth year = daysInMonth 1 := by
  funext month
  simp only [daysInMonth, if_neg h, if_neg (show ¬ leapYear 1 by decide)]

theorem daysBeforeMonth_congr {year other : ℤ} (h : daysInMonth year = daysInMonth other) :
    daysBeforeMonth year = daysBeforeMonth other := by
  funext month
  induction month using daysBeforeMonth.induct with
  | case1 => rfl
  | case2 => rfl
  | case3 month hmonth ih => simp only [daysBeforeMonth, ih, h]

theorem daysBeforeMonth_year :
    daysBeforeMonth year 12 + daysInMonth year 12 = if leapYear year then 366 else 365 := by
  by_cases h : leapYear year
  · rw [if_pos h, daysBeforeMonth_congr (daysInMonth_of_leap h), daysInMonth_of_leap h]
    decide
  · rw [if_neg h, daysBeforeMonth_congr (daysInMonth_of_common h), daysInMonth_of_common h]
    decide

theorem daysBeforeMonth_succ {year : ℤ} {month : ℕ} (h : 1 ≤ month) :
    daysBeforeMonth year (month + 1) = daysBeforeMonth year month + daysInMonth year month := by
  obtain ⟨month, rfl⟩ := Nat.exists_eq_add_of_le' h
  rfl

theorem daysBeforeMonth_mono {year : ℤ} {m n : ℕ} (hm : 1 ≤ m) (h : m ≤ n) :
    daysBeforeMonth year m ≤ daysBeforeMonth year n := by
  induction n, h using Nat.le_induction with
  | base => exact le_rfl
  | succ n hmn ih =>
    rw [daysBeforeMonth_succ (hm.trans hmn)]
    exact ih.trans (Nat.le_add_right _ _)

theorem daysBeforeYear_mono : Monotone daysBeforeYear := by
  refine monotone_int_of_le_succ fun year => ?_
  rw [daysBeforeYear_succ]
  split_ifs <;> omega

namespace CivilDate

variable (d : CivilDate)

def ordinal : ℤ := daysBeforeYear d.year + daysBeforeMonth d.year d.month + d.day

def next : CivilDate :=
  if h : d.day < daysInMonth d.year d.month then
    { d with
      day := d.day + 1
      day_pos := Nat.le_add_left _ _
      day_le := h }
  else if h : d.month < 12 then
    { year := d.year
      month := d.month + 1
      day := 1
      month_pos := Nat.le_add_left _ _
      month_le := h
      day_pos := le_rfl
      day_le := le_trans (by omega) (daysInMonth_pos _ _) }
  else
    { year := d.year + 1
      month := 1
      day := 1
      month_pos := le_rfl
      month_le := by omega
      day_pos := le_rfl
      day_le := le_trans (by omega) (daysInMonth_pos _ _) }

/-- The day `n` days after. -/
def addDays (n : ℕ) : CivilDate := next^[n] d

/-- A date before another: of an earlier year, month or day. -/
instance : LT CivilDate where
  lt d e := d.year < e.year ∨ d.year = e.year ∧
    (d.month < e.month ∨ d.month = e.month ∧ d.day < e.day)

instance (d e : CivilDate) : Decidable (d < e) :=
  inferInstanceAs (Decidable (_ ∨ _ ∧ (_ ∨ _ ∧ _)))

/-- **The day after has the next number.** -/
theorem ordinal_next : d.next.ordinal = d.ordinal + 1 := by
  unfold next
  split_ifs with hday hmonth
  · simp only [ordinal]
    push_cast
    ring
  · have hlast : d.day = daysInMonth d.year d.month := le_antisymm d.day_le (not_lt.mp hday)
    simp only [ordinal, daysBeforeMonth_succ d.month_pos, hlast]
    push_cast
    ring
  · have hlast : d.day = daysInMonth d.year d.month := le_antisymm d.day_le (not_lt.mp hday)
    have hdecember : d.month = 12 := le_antisymm d.month_le (not_lt.mp hmonth)
    have hyear := daysBeforeMonth_year d.year
    have hsum : (daysBeforeMonth d.year 12 : ℤ) + daysInMonth d.year 12 =
        if leapYear d.year then 366 else 365 := by
      split_ifs at hyear ⊢ <;> exact_mod_cast hyear
    simp only [ordinal, daysBeforeYear_succ, hlast, hdecember, ← hsum, daysBeforeMonth]
    push_cast
    ring

theorem ordinal_addDays (n : ℕ) : (d.addDays n).ordinal = d.ordinal + n := by
  induction n with
  | zero => simp [addDays]
  | succ n ih =>
    rw [addDays, Function.iterate_succ_apply', ← addDays, ordinal_next, ih]
    push_cast
    ring

theorem addDays_succ (n : ℕ) : d.addDays (n + 1) = (d.addDays n).next :=
  Function.iterate_succ_apply' _ _ _

theorem ordinal_le_year : d.ordinal ≤ daysBeforeYear (d.year + 1) := by
  have hmonth : daysBeforeMonth d.year d.month + daysInMonth d.year d.month ≤
      daysBeforeMonth d.year 12 + daysInMonth d.year 12 := by
    rw [← daysBeforeMonth_succ d.month_pos, ← daysBeforeMonth_succ (by omega : 1 ≤ 12)]
    exact daysBeforeMonth_mono (by omega) (by have := d.month_le; omega)
  have hyear := daysBeforeMonth_year d.year
  have hday := d.day_le
  rw [daysBeforeYear_succ, ordinal]
  split_ifs at hyear ⊢ <;> omega

variable {d} {e : CivilDate}

/-- **An earlier date has a lower number.** -/
theorem ordinal_lt (h : d < e) : d.ordinal < e.ordinal := by
  have hlater : daysBeforeYear e.year < e.ordinal := by
    have := e.day_pos
    unfold ordinal
    omega
  rcases h with hyear | ⟨hyear, hmonth | ⟨hmonth, hday⟩⟩
  · have hmono : daysBeforeYear (d.year + 1) ≤ daysBeforeYear e.year := daysBeforeYear_mono hyear
    have := d.ordinal_le_year
    omega
  · have hmono : daysBeforeMonth d.year (d.month + 1) ≤ daysBeforeMonth d.year e.month :=
      daysBeforeMonth_mono (by omega) hmonth
    rw [daysBeforeMonth_succ d.month_pos] at hmono
    have := d.day_le
    have := e.day_pos
    rw [ordinal, ordinal, ← hyear]
    omega
  · rw [ordinal, ordinal, ← hyear, ← hmonth]
    omega

theorem lt_trichotomy' (d e : CivilDate) : d < e ∨ d = e ∨ e < d := by
  obtain ⟨y, m, n, -, -, -, -⟩ := d
  obtain ⟨y', m', n', -, -, -, -⟩ := e
  change (y < y' ∨ y = y' ∧ (m < m' ∨ m = m' ∧ n < n')) ∨ _ ∨
    (y' < y ∨ y' = y ∧ (m' < m ∨ m' = m ∧ n' < n))
  simp only [mk.injEq]
  omega

theorem ordinal_injective : Function.Injective ordinal := by
  intro d e h
  rcases lt_trichotomy' d e with hlt | heq | hlt
  · exact absurd h (ordinal_lt hlt).ne
  · exact heq
  · exact absurd h (ordinal_lt hlt).ne'

/-- **A later date is so many days after.** -/
theorem addDays_ordinal_sub (h : d < e) : d.addDays (e.ordinal - d.ordinal).toNat = e := by
  have hlt := ordinal_lt h
  refine ordinal_injective ?_
  rw [ordinal_addDays]
  omega

end CivilDate
