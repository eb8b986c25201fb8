/-
  Wall clocks, and the days they count.

  * `TimeZone` is an offset at every instant; `localTime` is what its wall clock shows;
  * `dayAt zone start` counts the days that have begun at a time of the wall clock, and
    `RepeatsStart` says that the clock is set back over the beginning of one;
  * `WallClock` reads a time of the wall clock as an instant; `instantOf_mono`: a time of a
    later day is no earlier instant.

  Instants and times are counted in microseconds.
-/
import Mathlib.Tactic

namespace Clock

def hourLength : ℤ := 3600000000

def dayLength : ℤ := 24 * hourLength

theorem dayLength_pos : 0 < dayLength := by norm_num [dayLength, hourLength]

/-! ## From instants to days -/

/-- A time zone: its offset at each instant, which changes by an hour at most. -/
structure TimeZone where
  offset : ℤ → ℤ
  hour_most : ∀ t, |offset (t + 1) - offset t| ≤ hourLength

namespace TimeZone

variable (zone : TimeZone) (start : ℤ)

def localTime (t : ℤ) : ℤ := t + zone.offset t

def dayAt (t : ℤ) : ℤ := (zone.localTime t - start) / dayLength

/-- Some day begins at a time that the wall clock has been set back to before. -/
def RepeatsStart : Prop :=
  ∃ t day : ℤ, zone.localTime (t + 1) < start + day * dayLength ∧
    start + day * dayLength ≤ zone.localTime t

variable {zone start}

theorem le_dayAt_iff {day t : ℤ} :
    day ≤ zone.dayAt start t ↔ start + day * dayLength ≤ zone.localTime t := by
  rw [dayAt, Int.le_ediv_iff_mul_le dayLength_pos]
  constructor <;> intro h <;> linarith

theorem dayAt_le_succ (h : ¬ zone.RepeatsStart start) (t : ℤ) :
    zone.dayAt start t ≤ zone.dayAt start (t + 1) := by
  by_contra hback
  refine h ⟨t, zone.dayAt start t, ?_, le_dayAt_iff.mp le_rfl⟩
  exact lt_of_not_ge fun hle => hback (le_dayAt_iff.mpr hle)

/-- **The days go forward iff no beginning is repeated.** -/
theorem dayAt_mono_iff : Monotone (zone.dayAt start) ↔ ¬ zone.RepeatsStart start := by
  constructor
  · rintro hmono ⟨t, day, hafter, hbefore⟩
    have hbegun := (le_dayAt_iff.mpr hbefore).trans (hmono (by omega : t ≤ t + 1))
    exact absurd (le_dayAt_iff.mp hbegun) (not_le.mpr hafter)
  · intro h
    exact monotone_int_of_le_succ (dayAt_le_succ h)

end TimeZone

/-- How a zone reads its wall clock: the offset at each time shown, which does not grow by more
    than a day within one. -/
structure WallClock where
  offset : ℤ → ℤ
  day_most : ∀ shown, offset (shown + dayLength) ≤ offset shown + dayLength

namespace WallClock

variable (clock : WallClock)

def instantOf (shown : ℤ) : ℤ := shown - clock.offset shown

/-- **The same time of a later day** is no earlier instant. -/
theorem instantOf_mono (time : ℤ) : Monotone fun day => clock.instantOf (day * dayLength + time) := by
  refine monotone_int_of_le_succ fun day => ?_
  have hstep := clock.day_most (day * dayLength + time)
  have hnext : (day + 1) * dayLength + time = day * dayLength + time + dayLength := by ring
  simp only [instantOf]
  rw [hnext]
  linarith

end WallClock

end Clock
