/-
  Market calendars, and the days trades settle on (`data/calendar.py`,
  `conventions/settlement.py`).

  * `MarketCalendar` declares the windows of each weekday, the holidays and the special sessions;
    `windowsOn` are the windows of a day, and a day with one is a trading day;
  * `settlementDate` and `addTradingDays` each walk to the `n`-th trading day after a date;
    `settleFrom_iff`, `walkFrom_iff`: what either walk finds, and how far it gets;
  * `settles_by_either_path_iff`: both answer alike iff the `n`-th trading day is not the very
    last of the days searched; `trades_settle_in_turn`: a settlement is counted on from another.

  Days are counted from the first of January 1970.
-/
import AlphaLab.Lib.Counts
import AlphaLab.Lib.Dict
import AlphaLab.Lib.Runs
import AlphaLab.Lib.Zone

namespace AlphaLab

open Clock Counts Fallible

/-! ## The calendar -/

/-- `SessionWindow`: two times of day. -/
structure SessionWindow where
  opens : ℤ
  closes : ℤ
  opens_nonneg : 0 ≤ opens := by decide
  opens_lt : opens < dayLength := by decide
  closes_nonneg : 0 ≤ closes := by decide
  closes_lt : closes < dayLength := by decide

def SessionWindow.CrossesMidnight (w : SessionWindow) : Prop := w.closes ≤ w.opens

instance (w : SessionWindow) : Decidable w.CrossesMidnight :=
  inferInstanceAs (Decidable (w.closes ≤ w.opens))

/-- `date.weekday`, Monday being 0: the first of January 1970 was a Thursday. -/
def weekday (day : ℤ) : ℤ := (day + 3) % 7

theorem no_weekdays : ∀ weekday ∈ (Dict.empty : Dict ℤ (List SessionWindow)).keys,
    0 ≤ weekday ∧ weekday ≤ 6 := by decide

structure MarketCalendar where
  zone : Zone
  weeklySessions : Dict ℤ (List SessionWindow)
  holidays : List ℤ := []
  specialSessions : Dict ℤ (List SessionWindow) := .empty
  weekdays : ∀ weekday ∈ weeklySessions.keys, 0 ≤ weekday ∧ weekday ≤ 6 := by
    first | exact no_weekdays | decide

namespace MarketCalendar

variable (calendar : MarketCalendar)

/-- `windows_on`: the special windows of a day, none on a holiday, or its weekday's. -/
def windowsOn (day : ℤ) : List SessionWindow :=
  match calendar.specialSessions.get? day with
  | some windows => windows
  | none =>
    if day ∈ calendar.holidays then []
    else (calendar.weeklySessions.get? (weekday day)).getD []

def IsTradingDay (day : ℤ) : Prop := calendar.windowsOn day ≠ []

instance : DecidablePred calendar.IsTradingDay := fun day =>
  inferInstanceAs (Decidable (calendar.windowsOn day ≠ []))

end MarketCalendar

def maxSessionSearchDays : ℕ := 400

def maxSettlementSearchDays : ℕ := 400

/-! ## Walking over trading days -/

inductive CalendarRefusal where
  | beyondSearch (days : ℕ) (day : ℤ)
deriving DecidableEq

/-- The loop of `add_trading_days`: the days left to walk, the trading days left to find, and the
    date reached. -/
def walkFrom (trades : ℤ → Prop) [DecidablePred trades] (step : ℤ) : ℕ → ℕ → ℤ → Option ℤ
  | 0, _, _ => none
  | days + 1, remaining, cursor =>
    let cursor := cursor + step
    if trades cursor then
      if remaining - 1 = 0 then some cursor else walkFrom trades step days (remaining - 1) cursor
    else walkFrom trades step days remaining cursor

def MarketCalendar.addTradingDays (calendar : MarketCalendar) (day count : ℤ) :
    Except CalendarRefusal ℤ :=
  if count = 0 then .ok day
  else
    let step := if 0 < count then 1 else -1
    match walkFrom calendar.IsTradingDay step maxSessionSearchDays count.natAbs day with
    | some date => .ok date
    | none => .error (.beyondSearch count.natAbs day)

inductive SettlementBasis where
  | tradeDate
  | tradingDays
  | calendarDays

structure SettlementRule where
  basis : SettlementBasis
  offsetDays : ℕ
  same_day : basis = .tradeDate → offsetDays = 0 := by simp

inductive SettlementRefusal where
  | needsCalendar
  | readsNoCalendar
  | tooFewTradingDays (found : ℕ)
deriving DecidableEq

/-- The loop of `settlement_date`: a walk that ends where no trading day is left to find, or with
    the days it still had to find. -/
def settleFrom (trades : ℤ → Prop) [DecidablePred trades] : ℕ → ℕ → ℤ → ℕ ⊕ ℤ
  | 0, remaining, _ => .inl remaining
  | _ + 1, 0, cursor => .inr cursor
  | days + 1, remaining + 1, cursor =>
    settleFrom trades days (if trades (cursor + 1) then remaining else remaining + 1) (cursor + 1)

def settlementDate (rule : SettlementRule) (tradeDate : ℤ) (calendar : Option MarketCalendar) :
    Except SettlementRefusal ℤ :=
  match rule.basis, calendar with
  | .tradingDays, none => .error .needsCalendar
  | .tradeDate, some _ => .error .readsNoCalendar
  | .calendarDays, some _ => .error .readsNoCalendar
  | .tradeDate, none => .ok tradeDate
  | .calendarDays, none => .ok (tradeDate + rule.offsetDays)
  | .tradingDays, some calendar =>
    match settleFrom calendar.IsTradingDay maxSettlementSearchDays rule.offsetDays tradeDate with
    | .inr date => .ok date
    | .inl remaining => .error (.tooFewTradingDays (rule.offsetDays - remaining))

section Walks

variable {trades : ℤ → Prop} [DecidablePred trades] {d s : ℤ} {n : ℕ}

/-- **The settlement's walk** finds the `n`-th trading day if it is before the last one walked. -/
theorem settleFrom_iff (days : ℕ) :
    settleFrom trades days n d = .inr s ↔ IsNth trades d n s ∧ s < d + days := by
  induction days generalizing n d with
  | zero =>
    refine iff_of_false (fun h => nomatch h) ?_
    rintro ⟨hnth, hlt⟩
    have := hnth.le
    simp at hlt
    omega
  | succ days ih =>
    cases n with
    | zero =>
      rw [settleFrom, Sum.inr.injEq, isNth_zero]
      constructor
      · rintro rfl
        exact ⟨rfl, by push_cast; omega⟩
      · exact fun h => h.1.symm
    | succ n =>
      rw [settleFrom, ih, isNth_step]
      push_cast
      rw [show d + 1 + (days : ℤ) = d + (days + 1) by ring]

/-- **The calendar's walk** finds it up to the last one walked. -/
theorem walkFrom_iff (days : ℕ) :
    walkFrom trades 1 days (n + 1) d = some s ↔ IsNth trades d (n + 1) s ∧ s ≤ d + days := by
  induction days generalizing n d with
  | zero =>
    refine iff_of_false (fun h => nomatch h) ?_
    rintro ⟨hnth, hle⟩
    have := (isNth_step.mp hnth).le
    simp at hle
    omega
  | succ days ih =>
    rw [isNth_step, walkFrom]
    have hdays : d + 1 + (days : ℤ) = d + (days + 1 : ℕ) := by push_cast; ring
    split_ifs with htrades hlast
    · obtain rfl : n = 0 := by omega
      rw [isNth_zero, Option.some.injEq]
      constructor
      · rintro rfl
        exact ⟨rfl, by omega⟩
      · exact fun h => h.1.symm
    · obtain ⟨m, rfl⟩ := Nat.exists_eq_succ_of_ne_zero (show n ≠ 0 by omega)
      rw [Nat.add_sub_cancel, Nat.succ_eq_add_one, ih, hdays]
    · rw [ih, hdays]

theorem walkFrom_neg (days remaining : ℕ) (cursor : ℤ) :
    walkFrom trades (-1) days remaining cursor =
      (walkFrom (fun x => trades (-x)) 1 days remaining (-cursor)).map Neg.neg := by
  induction days generalizing remaining cursor with
  | zero => rfl
  | succ days ih =>
    have hstep : -(-cursor + 1) = cursor + -1 := by ring
    have hcursor : -cursor + 1 = -(cursor + -1) := by ring
    simp only [walkFrom, hstep]
    split_ifs
    · rw [Option.map_some, hstep]
    · rw [ih, ← hcursor]
    · rw [ih, ← hcursor]

end Walks

/-! ## Either path to the `n`-th trading day -/

/-- A rule of `n` trading days. -/
def tradingDaysRule (n : ℕ) : SettlementRule := { basis := .tradingDays, offsetDays := n }

/-- What both paths are to answer for the `n`-th trading day after a date: the day if it is
    within the bound, and back from it the date; otherwise a refusal. -/
structure SettlesByEitherPath (calendar : MarketCalendar) (day : ℤ) (n : ℕ) : Prop where
  settles : ∀ s, IsNth calendar.IsTradingDay day n s → s ≤ day + maxSettlementSearchDays →
    settlementDate (tradingDaysRule n) day (some calendar) = .ok s
  adds : ∀ s, IsNth calendar.IsTradingDay day n s → s ≤ day + maxSettlementSearchDays →
    calendar.addTradingDays day n = .ok s
  returns : ∀ s, IsNth calendar.IsTradingDay day n s → s ≤ day + maxSettlementSearchDays →
    calendar.IsTradingDay day → calendar.addTradingDays s (-n) = .ok day
  refuses : (∀ s, IsNth calendar.IsTradingDay day n s → day + maxSettlementSearchDays < s) →
    (∃ e, settlementDate (tradingDaysRule n) day (some calendar) = .error e) ∧
      ∃ e, calendar.addTradingDays day n = .error e

section Paths

variable {calendar : MarketCalendar} {day s t : ℤ} {m n : ℕ}

theorem settlementDate_iff :
    settlementDate (tradingDaysRule n) day (some calendar) = .ok s ↔
      IsNth calendar.IsTradingDay day n s ∧ s < day + maxSettlementSearchDays := by
  rw [← settleFrom_iff]
  simp only [settlementDate, tradingDaysRule]
  cases settleFrom calendar.IsTradingDay maxSettlementSearchDays n day with
  | inl remaining => exact iff_of_false (fun h => nomatch h) (fun h => nomatch h)
  | inr date => rw [Except.ok.injEq, Sum.inr.injEq]

theorem addTradingDays_iff :
    calendar.addTradingDays day n = .ok s ↔
      IsNth calendar.IsTradingDay day n s ∧ s ≤ day + maxSettlementSearchDays := by
  cases n with
  | zero =>
    rw [isNth_zero, MarketCalendar.addTradingDays, if_pos (by rfl), Except.ok.injEq]
    constructor
    · rintro rfl
      exact ⟨rfl, by omega⟩
    · exact fun h => h.1.symm
  | succ n =>
    have hcount : ((n + 1 : ℕ) : ℤ) ≠ 0 := by omega
    have hpos : (0 : ℤ) < ((n + 1 : ℕ) : ℤ) := by omega
    rw [show maxSettlementSearchDays = maxSessionSearchDays from rfl, ← walkFrom_iff,
      MarketCalendar.addTradingDays, if_neg hcount]
    simp only [if_pos hpos, Int.natAbs_natCast]
    cases walkFrom calendar.IsTradingDay 1 maxSessionSearchDays (n + 1) day with
    | none => exact iff_of_false (fun h => nomatch h) (fun h => nomatch h)
    | some date => rw [Except.ok.injEq, Option.some.injEq]

theorem addTradingDays_back (h : IsNth calendar.IsTradingDay day n s)
    (hs : s ≤ day + maxSettlementSearchDays) (hday : calendar.IsTradingDay day) :
    calendar.addTradingDays s (-n) = .ok day := by
  cases n with
  | zero =>
    obtain rfl := isNth_zero.mp h
    rfl
  | succ n =>
    have hcount : -((n + 1 : ℕ) : ℤ) ≠ 0 := by omega
    have hneg : ¬ (0 : ℤ) < -((n + 1 : ℕ) : ℤ) := by omega
    have hwalk : walkFrom (fun x => calendar.IsTradingDay (-x)) 1 maxSessionSearchDays (n + 1)
        (-s) = some (-day) := by
      refine (walkFrom_iff _).mpr ⟨h.reverse hday, ?_⟩
      change -day ≤ -s + maxSettlementSearchDays
      omega
    rw [MarketCalendar.addTradingDays, if_neg hcount]
    simp only [if_neg hneg, Int.natAbs_neg, Int.natAbs_natCast]
    rw [walkFrom_neg, hwalk, Option.map_some, neg_neg]

theorem error_of_not_ok {ε α : Type*} {x : Except ε α} (h : ∀ a, x ≠ .ok a) :
    ∃ e, x = .error e := by
  cases x with
  | ok a => exact absurd rfl (h a)
  | error e => exact ⟨e, rfl⟩

/-- **Either path answers for the `n`-th trading day** iff it is not the last day searched: the
    settlement's walk ends before it looks whether that day was the `n`-th. -/
theorem settles_by_either_path_iff (calendar : MarketCalendar) (day : ℤ) (n : ℕ) :
    SettlesByEitherPath calendar day n ↔
      ¬ IsNth calendar.IsTradingDay day n (day + maxSettlementSearchDays) := by
  constructor
  · intro h hnth
    have hok := settlementDate_iff.mp (h.settles _ hnth le_rfl)
    exact lt_irrefl _ hok.2
  · intro hnot
    refine ⟨?_, ?_, ?_, ?_⟩
    · intro s hnth hle
      refine settlementDate_iff.mpr ⟨hnth, lt_of_le_of_ne hle ?_⟩
      rintro rfl
      exact hnot hnth
    · exact fun s hnth hle => addTradingDays_iff.mpr ⟨hnth, hle⟩
    · exact fun s hnth hle hday => addTradingDays_back hnth hle hday
    · intro hbeyond
      constructor
      · refine error_of_not_ok fun s hok => ?_
        obtain ⟨hnth, hlt⟩ := settlementDate_iff.mp hok
        exact absurd (hbeyond s hnth) (not_lt.mpr hlt.le)
      · refine error_of_not_ok fun s hok => ?_
        obtain ⟨hnth, hle⟩ := addTradingDays_iff.mp hok
        exact absurd (hbeyond s hnth) (not_lt.mpr hle)

/-- **Trades settle in turn**: where `m` days settle, `n` days more settle as `n` days after
    that, and a later trade settles no earlier. -/
theorem trades_settle_in_turn
    (h : settlementDate (tradingDaysRule m) day (some calendar) = .ok t) :
    (∀ n s, settlementDate (tradingDaysRule (m + n)) day (some calendar) = .ok s ↔
      settlementDate (tradingDaysRule n) t (some calendar) = .ok s ∧
        s < day + maxSettlementSearchDays) ∧
    ∀ later s, day ≤ later → settlementDate (tradingDaysRule m) later (some calendar) = .ok s →
      t ≤ s := by
  obtain ⟨hnth, -⟩ := settlementDate_iff.mp h
  constructor
  · intro n s
    rw [settlementDate_iff, settlementDate_iff, hnth.add]
    have hle := hnth.le
    constructor
    · rintro ⟨hs, hlt⟩
      exact ⟨⟨hs, by omega⟩, hlt⟩
    · rintro ⟨⟨hs, -⟩, hlt⟩
      exact ⟨hs, hlt⟩
  · intro later s hlater hs
    exact hnth.mono (settlementDate_iff.mp hs).1 hlater

end Paths

/-- A market that trades on one day only, four hundred days after the first of January 1970. -/
def tradesOnce : MarketCalendar where
  zone := { initial := 0 }
  weeklySessions := .empty
  specialSessions := Dict.empty.set 400 [{ opens := 0, closes := hourLength }]

/-- Its first trading day after that date is within the bound: the calendar counts to it, and no
    trade settles on it. -/
theorem last_day_settles_by_one_path :
    tradesOnce.addTradingDays 0 1 = .ok 400 ∧
      settlementDate (tradingDaysRule 1) 0 (some tradesOnce) = .error (.tooFewTradingDays 1) ∧
      ¬ SettlesByEitherPath tradesOnce 0 1 := by
  have hadds : tradesOnce.addTradingDays 0 1 = .ok 400 := by decide +kernel
  have hrefused : settlementDate (tradingDaysRule 1) 0 (some tradesOnce) =
      .error (.tooFewTradingDays 1) := by decide +kernel
  refine ⟨hadds, hrefused, fun h => ?_⟩
  have hnth := addTradingDays_iff.mp (show tradesOnce.addTradingDays 0 (1 : ℕ) = .ok 400 from hadds)
  have hok := h.settles 400 hnth.1 hnth.2
  exact absurd (hok.symm.trans hrefused) (fun h => nomatch h)

/-- A market that trades once more, three days later. -/
def tradesTwice : MarketCalendar :=
  { tradesOnce with
    specialSessions := tradesOnce.specialSessions.set 403 [{ opens := 0, closes := hourLength }] }

theorem tradesTwice_in_turn :
    settlementDate (tradingDaysRule (1 + 1)) 398 (some tradesTwice) = .ok 403 :=
  ((trades_settle_in_turn (t := 400) (by decide +kernel)).1 1 403).mpr
    ⟨by decide +kernel, by decide⟩

end AlphaLab
