/-
  The trading day a loss is measured within (`DailyLossLimit` of `risk/limits.py`,
  `RiskEngine.mark` of `risk/engine.py`).

  * `tradingDay` is the date of the wall clock of the limit's zone, set back by the day's start;
  * `mark` records a value of the book, starts a trading day and measures the loss since;
  * `day_starts_once_iff`: marks in the order of time start each day once, and measure from the
    value the book closed the day before at, iff no change of the offset repeats a day's start.
-/
import AlphaLab.Lib.Clock
import AlphaLab.Lib.SignificantDigits
import AlphaLab.Risk.Projection

namespace AlphaLab

open Clock Rounding

structure DailyLossLimit where
  maxDailyLoss : Decimal
  zone : TimeZone
  dayStart : ℤ
  dayStart_nonneg : 0 ≤ dayStart
  dayStart_lt : dayStart < dayLength

/-- `datetime.fromtimestamp`: the microsecond nearest a timestamp. -/
def microseconds (timestamp : Instant) : ℤ := roundHalfEven (timestamp * 1000000)

namespace DailyLossLimit

variable (limit : DailyLossLimit)

/-- `trading_day`: the date of the wall clock, set back by the day's start. -/
def tradingDay (timestamp : Instant) : ℤ := limit.zone.dayAt limit.dayStart (microseconds timestamp)

/-- Some day starts where a change of the offset has set the wall clock back to before it. -/
def RepeatsStart : Prop := limit.zone.RepeatsStart limit.dayStart

variable {limit}

theorem tradingDay_mono (h : ¬ limit.RepeatsStart) : Monotone limit.tradingDay := by
  intro s t hst
  refine TimeZone.dayAt_mono_iff.mpr h ?_
  exact roundHalfEven_mono (mul_le_mul_of_nonneg_right hst (by norm_num))

theorem tradingDay_microsecond (t : ℤ) :
    limit.tradingDay (t / 1000000) = limit.zone.dayAt limit.dayStart t := by
  have hround : microseconds (t / 1000000) = t := by
    rw [microseconds, div_mul_cancel₀ _ (by norm_num)]
    exact roundHalfEven_intCast t
  rw [tradingDay, hround]

end DailyLossLimit

/-! ## Marks -/

/-- The arguments of `mark`. -/
structure RiskMark where
  nav : Decimal
  cash : Decimal
  timestamp : Instant

/-- `RiskState`, with the limit the day is read from, the trading day and the value it started
    at, which are set together. -/
structure MarkedRisk extends RiskState where
  dailyLossLimit : Option DailyLossLimit
  cash : Decimal
  day : Option (ℤ × Decimal)
  limit_most : activeLimits.maxDailyLoss = dailyLossLimit.map (·.maxDailyLoss)

namespace MarkedRisk

/-- The trading day and its start's value after a mark: the day of the mark starts from the
    value last marked, the first from the mark's own. -/
def dayAfter (s : MarkedRisk) (limit : DailyLossLimit) (m : RiskMark) : ℤ × Decimal :=
  match s.day with
  | none => (limit.tradingDay m.timestamp, m.nav)
  | some (day, start) =>
    if day = limit.tradingDay m.timestamp then (day, start)
    else (limit.tradingDay m.timestamp, s.currentNav)

def mark (s : MarkedRisk) (m : RiskMark) : MarkedRisk :=
  let day := s.dailyLossLimit.map fun limit => s.dayAfter limit m
  { s with
    cash := m.cash
    buyingPower := max 0 m.cash
    currentNav := m.nav
    peakNav := max s.peakNav m.nav
    dailyLoss := day.elim 0 fun started => max 0 (subtract started.2 m.nav)
    day := day.or s.day }

def starts : MarkedRisk → List RiskMark → List ℤ
  | _, [] => []
  | s, m :: l =>
    let day := ((s.mark m).day.map Prod.fst).filter fun day => s.day.map Prod.fst ≠ some day
    day.toList ++ (s.mark m).starts l

end MarkedRisk

/-- The value last marked before the trading day of a mark began, the first value marked for
    the first day. -/
def closingValue (limit : DailyLossLimit) (earlier : List RiskMark) (m : RiskMark) : Decimal :=
  let before := earlier.filter fun n => limit.tradingDay n.timestamp < limit.tradingDay m.timestamp
  (before.getLast?.getD (earlier.head?.getD m)).nav

/-- What marks from a state are to do: the days go forward, each starts once, and at every mark
    the loss is measured from the value the book closed the day before at. -/
structure MeasuresDays (limit : DailyLossLimit) (s : MarkedRisk) (l : List RiskMark) : Prop where
  forward : (l.map fun m => limit.tradingDay m.timestamp).Pairwise (· ≤ ·)
  once : (s.starts l).Nodup
  loss : ∀ earlier m, earlier ++ [m] <+: l →
    ((earlier ++ [m]).foldl MarkedRisk.mark s).dailyLoss =
      max 0 (subtract (closingValue limit earlier m) m.nav)

section
variable {limit : DailyLossLimit} {s : MarkedRisk} {l : List RiskMark}

theorem foldl_mark_limit (l : List RiskMark) :
    (l.foldl MarkedRisk.mark s).dailyLossLimit = s.dailyLossLimit := by
  induction l generalizing s with
  | nil => rfl
  | cons m l ih =>
    rw [List.foldl_cons, ih]
    rfl

theorem mark_of_limit (hlimit : s.dailyLossLimit = some limit) (m : RiskMark) :
    (s.mark m).day = some (s.dayAfter limit m) ∧
      (s.mark m).dailyLoss = max 0 (subtract (s.dayAfter limit m).2 m.nav) := by
  simp [MarkedRisk.mark, hlimit]

theorem dayAfter_fst (s : MarkedRisk) (m : RiskMark) :
    (s.dayAfter limit m).1 = limit.tradingDay m.timestamp := by
  unfold MarkedRisk.dayAfter
  cases s.day with
  | none => rfl
  | some started =>
    dsimp only
    split_ifs with hsame
    · exact hsame
    · rfl

/-- **The day a run of marks is in**, and the value it started at. -/
theorem foldl_mark_day (hlimit : s.dailyLossLimit = some limit) (hnew : s.day = none)
    (m : RiskMark)
    (hforward : ((l ++ [m]).map fun m => limit.tradingDay m.timestamp).Pairwise (· ≤ ·)) :
    (l.foldl MarkedRisk.mark s).dayAfter limit m =
      (limit.tradingDay m.timestamp, closingValue limit l m) := by
  induction l using List.reverseRecOn generalizing m with
  | nil => simp [MarkedRisk.dayAfter, hnew, closingValue]
  | append_singleton l n ih =>
    have hlast : limit.tradingDay n.timestamp ≤ limit.tradingDay m.timestamp := by
      rw [List.map_append, List.pairwise_append] at hforward
      exact hforward.2.2 _ (by simp) _ (by simp)
    have hbefore := ih n (hforward.sublist ((List.sublist_append_left _ _).map _))
    have hfold : ((l ++ [n]).foldl MarkedRisk.mark s).day =
        some (limit.tradingDay n.timestamp, closingValue limit l n) := by
      rw [List.foldl_append]
      change ((l.foldl MarkedRisk.mark s).mark n).day = _
      rw [(mark_of_limit ((foldl_mark_limit l).trans hlimit) n).1, hbefore]
    have hnav : ((l ++ [n]).foldl MarkedRisk.mark s).currentNav = n.nav := by
      rw [List.foldl_append]
      rfl
    have hhead : ((l ++ [n]).head?.getD m) = l.head?.getD n := by cases l <;> rfl
    unfold MarkedRisk.dayAfter
    rw [hfold]
    dsimp only
    split_ifs with hsame
    · rw [closingValue, closingValue, hhead, List.filter_append, ← hsame]
      simp
    · have hearlier := lt_of_le_of_ne hlast hsame
      rw [hnav, closingValue, List.filter_append]
      simp [hearlier]

theorem starts_sorted (hlimit : s.dailyLossLimit = some limit) {day : ℤ}
    (hday : s.day.map Prod.fst = some day)
    (hforward : (day :: l.map fun m => limit.tradingDay m.timestamp).Pairwise (· ≤ ·)) :
    (day :: s.starts l).Pairwise (· < ·) := by
  induction l generalizing s day with
  | nil => exact List.pairwise_singleton _ _
  | cons m l ih =>
    have hnext : (s.mark m).day.map Prod.fst = some (limit.tradingDay m.timestamp) := by
      rw [(mark_of_limit hlimit m).1, Option.map_some, dayAfter_fst]
    have hlimit' : (s.mark m).dailyLossLimit = some limit := hlimit
    have hrest := ih hlimit' hnext hforward.of_cons
    have hle : day ≤ limit.tradingDay m.timestamp :=
      (List.pairwise_cons.mp hforward).1 _ (by simp)
    unfold MarkedRisk.starts
    dsimp only
    rw [hnext, hday]
    rcases hle.eq_or_lt with rfl | hlt
    · rwa [Option.filter_some_neg (by simp), Option.toList_none, List.nil_append]
    · rw [Option.filter_some_pos (by simpa using hlt.ne), Option.toList_some, List.singleton_append]
      refine List.pairwise_cons.mpr ⟨?_, hrest⟩
      intro started hstarted
      rcases List.mem_cons.mp hstarted with rfl | hlater
      · exact hlt
      · exact hlt.trans ((List.pairwise_cons.mp hrest).1 _ hlater)

theorem starts_nodup (hlimit : s.dailyLossLimit = some limit) (hnew : s.day = none)
    (hforward : (l.map fun m => limit.tradingDay m.timestamp).Pairwise (· ≤ ·)) :
    (s.starts l).Nodup := by
  cases l with
  | nil => exact List.nodup_nil
  | cons m l =>
    have hnext : (s.mark m).day.map Prod.fst = some (limit.tradingDay m.timestamp) := by
      rw [(mark_of_limit hlimit m).1, Option.map_some, dayAfter_fst]
    have hlimit' : (s.mark m).dailyLossLimit = some limit := hlimit
    have hsorted := starts_sorted hlimit' hnext hforward
    unfold MarkedRisk.starts
    dsimp only
    rw [hnext, hnew]
    exact hsorted.imp ne_of_lt

end

/-- **Each trading day starts once, from the close of the day before, iff no start is
    repeated**: for every limit, whatever is marked in the order of time. -/
theorem day_starts_once_iff (limit : DailyLossLimit) :
    (∀ (s : MarkedRisk) (l : List RiskMark), s.dailyLossLimit = some limit → s.day = none →
      (l.map (·.timestamp)).Pairwise (· ≤ ·) → MeasuresDays limit s l) ↔
      ¬ limit.RepeatsStart := by
  constructor
  · intro h
    refine TimeZone.dayAt_mono_iff.mp (monotone_int_of_le_succ fun t => ?_)
    have hforward := (h {
      activeLimits := ⟨⟨0, 0⟩, ⟨0, 0⟩, ⟨0, 0⟩, 0, 0, some limit.maxDailyLoss, 0, []⟩
      exposure := ⟨0, 0, .empty⟩
      marginUsed := 0, buyingPower := 0, peakNav := 0, currentNav := 0, dailyLoss := 0
      dailyLossLimit := some limit
      cash := 0, day := none, limit_most := rfl }
      [⟨0, 0, (t : ℚ) / 1000000⟩, ⟨0, 0, ((t + 1 : ℤ) : ℚ) / 1000000⟩] rfl rfl (by
        simp only [List.map_cons, List.map_nil, List.pairwise_pair]
        push_cast
        linarith)).forward
    simpa only [List.map_cons, List.map_nil, List.pairwise_pair,
      DailyLossLimit.tradingDay_microsecond] using hforward
  · intro hrepeats s l hlimit hnew hsorted
    have hforward : (l.map fun m => limit.tradingDay m.timestamp).Pairwise (· ≤ ·) := by
      rw [List.pairwise_map] at hsorted ⊢
      exact hsorted.imp fun hle => DailyLossLimit.tradingDay_mono hrepeats hle
    refine ⟨hforward, starts_nodup hlimit hnew hforward, ?_⟩
    rintro earlier m ⟨later, rfl⟩
    have hday := foldl_mark_day hlimit hnew m
      (hforward.sublist ((List.sublist_append_left _ later).map _))
    rw [List.foldl_append]
    change ((earlier.foldl MarkedRisk.mark s).mark m).dailyLoss = _
    rw [(mark_of_limit ((foldl_mark_limit earlier).trans hlimit) m).2, hday]

/-- New York in the autumn of 2025: four hours behind UTC until six on the second of November,
    five from then on. -/
def newYork : TimeZone where
  offset t := if t < 1762063200000000 then -4 * hourLength else -5 * hourLength
  hour_most t := by
    split_ifs <;> norm_num [hourLength]

def halfPastOne : DailyLossLimit :=
  ⟨1000, newYork, hourLength + hourLength / 2, by decide, by decide⟩

/-- **A repeated start turns the day back**: a quarter to two the first time is a day later
    than a quarter past one the second. -/
theorem repeated_start_turns_back : ∃ s l, s.dailyLossLimit = some halfPastOne ∧ s.day = none ∧
    (l.map (·.timestamp)).Pairwise (· ≤ ·) ∧ ¬ MeasuresDays halfPastOne s l := by
  refine ⟨{
    activeLimits := ⟨⟨0, 0⟩, ⟨0, 0⟩, ⟨0, 0⟩, 0, 0, some 1000, 0, []⟩
    exposure := ⟨0, 0, .empty⟩
    marginUsed := 0, buyingPower := 0, peakNav := 0, currentNav := 0, dailyLoss := 0
    dailyLossLimit := some halfPastOne
    cash := 0, day := none, limit_most := rfl },
    [⟨100, 0, 1762062300⟩, ⟨90, 0, 1762064100⟩], rfl, rfl, by norm_num, fun h => ?_⟩
  have hforward := h.forward
  revert hforward
  decide +kernel

end AlphaLab
