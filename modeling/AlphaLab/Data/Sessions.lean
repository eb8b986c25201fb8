/-
  When a market is open, and when a day order expires (`data/calendar.py`).

  * `span` is a window of a day as instants, in the calendar's zone; `IsOpen`, `nextOpen`,
    `tradingDayOf` and `sessionBounds` each read the windows of the days about an instant;
  * `OpensInTurn` says of the openings after an instant that the first is of a window with an
    instant in it, that none comes before it, and that no window is in progress unread;
  * `expires_with_its_day_iff`: `nextOpen` and `dayOrderExpiry` answer for the next trading day
    iff the market is open or its openings come in turn.
-/
import AlphaLab.Data.Calendar
import AlphaLab.Lib.SortBy
import AlphaLab.Risk.TradingDay

namespace AlphaLab

open Clock Fallible

namespace MarketCalendar

variable (calendar : MarketCalendar)

/-- `_span`: the instant a window of a day opens at. -/
def opensAt (day : ℤ) (w : SessionWindow) : Instant :=
  (calendar.zone.instantOf (day * dayLength + w.opens) : ℚ) / 1000000

/-- `_span`: the instant it closes at. -/
def closesAt (day : ℤ) (w : SessionWindow) : Instant :=
  let closeDay := if w.CrossesMidnight then day + 1 else day
  (calendar.zone.instantOf (closeDay * dayLength + w.closes) : ℚ) / 1000000

/-- The date of `local_datetime`. -/
def localDate (timestamp : Instant) : ℤ := calendar.zone.dateOf (microseconds timestamp)

/-- The windows looked at for an instant: those of the day before its date, and of its date. -/
def windowsRead (timestamp : Instant) : List (ℤ × SessionWindow) :=
  [calendar.localDate timestamp - 1, calendar.localDate timestamp].flatMap fun day =>
    (calendar.windowsOn day).map fun w => (day, w)

def InProgress (timestamp : Instant) (read : ℤ × SessionWindow) : Prop :=
  calendar.opensAt read.1 read.2 ≤ timestamp ∧ timestamp < calendar.closesAt read.1 read.2

instance (timestamp : Instant) : DecidablePred (calendar.InProgress timestamp) := fun _ =>
  inferInstanceAs (Decidable (_ ∧ _))

/-! ## The readers -/

def IsOpen (timestamp : Instant) : Prop :=
  ∃ read ∈ calendar.windowsRead timestamp, calendar.InProgress timestamp read

instance : DecidablePred calendar.IsOpen := fun _ => inferInstanceAs (Decidable (∃ _ ∈ _, _))

/-- `trading_day_of`: the day of the first window in progress. -/
def tradingDayOf (timestamp : Instant) : Option ℤ :=
  ((calendar.windowsRead timestamp).find? fun read => calendar.InProgress timestamp read).map
    Prod.fst

/-- `session_bounds`: the first open and the last close of a day. -/
def sessionBounds (day : ℤ) : Option (Instant × Instant) :=
  ((calendar.windowsOn day).map (calendar.opensAt day)).min?.bind fun first =>
    ((calendar.windowsOn day).map (calendar.closesAt day)).max?.map fun last => (first, last)

/-- The opening of a day that `next_open` takes: the first at or after an instant. -/
def openingOn (timestamp : Instant) (day : ℤ) : Option Instant :=
  (sortBy id ((calendar.windowsOn day).map (calendar.opensAt day))).find? fun start =>
    timestamp ≤ start

def nextOpen (timestamp : Instant) : Option Instant :=
  if calendar.IsOpen timestamp then some timestamp
  else (List.range maxSessionSearchDays).findSome? fun offset : ℕ =>
    calendar.openingOn timestamp (calendar.localDate timestamp + offset)

def dayOrderExpiry (timestamp : Instant) : Option Instant :=
  (calendar.nextOpen timestamp).bind fun opens =>
    (calendar.tradingDayOf opens).bind fun day => (calendar.sessionBounds day).map Prod.snd

variable {calendar} {t u v : Instant} {day : ℤ} {w : SessionWindow}

theorem mem_windowsRead : (day, w) ∈ calendar.windowsRead t ↔
    (day = calendar.localDate t - 1 ∨ day = calendar.localDate t) ∧ w ∈ calendar.windowsOn day := by
  simp only [windowsRead, List.mem_flatMap, List.mem_cons, List.not_mem_nil, or_false, List.mem_map,
    Prod.mk.injEq]
  constructor
  · rintro ⟨d, hd, x, hx, rfl, rfl⟩
    exact ⟨hd, hx⟩
  · rintro ⟨hd, hw⟩
    exact ⟨day, hd, w, hw, rfl, rfl⟩

theorem isOpen_iff : calendar.IsOpen t ↔ ∃ day w,
    (day = calendar.localDate t - 1 ∨ day = calendar.localDate t) ∧ w ∈ calendar.windowsOn day ∧
      calendar.InProgress t (day, w) := by
  constructor
  · rintro ⟨⟨day, w⟩, hread, hin⟩
    obtain ⟨hday, hw⟩ := mem_windowsRead.mp hread
    exact ⟨day, w, hday, hw, hin⟩
  · rintro ⟨day, w, hday, hw, hin⟩
    exact ⟨(day, w), mem_windowsRead.mpr ⟨hday, hw⟩, hin⟩

/-! ## The first opening -/

variable (calendar)

structure Searched (t : Instant) (day : ℤ) (w : SessionWindow) : Prop where
  mem : w ∈ calendar.windowsOn day
  from_day : calendar.localDate t ≤ day
  bounded : day < calendar.localDate t + maxSessionSearchDays
  opens : t ≤ calendar.opensAt day w

structure FirstOpening (t : Instant) (day : ℤ) (w : SessionWindow) : Prop
    extends calendar.Searched t day w where
  first : ∀ day' w', calendar.Searched t day' w' →
    day < day' ∨ day = day' ∧ calendar.opensAt day w ≤ calendar.opensAt day' w'

variable {calendar}

theorem openingOn_iff : calendar.openingOn t day = some u ↔
    ∃ w ∈ calendar.windowsOn day, calendar.opensAt day w = u ∧ t ≤ u ∧
      ∀ w' ∈ calendar.windowsOn day, t ≤ calendar.opensAt day w' → u ≤ calendar.opensAt day w' := by
  rw [openingOn, find?_sorted_iff]
  simp only [List.mem_map, decide_eq_true_eq, forall_exists_index, and_imp,
    forall_apply_eq_imp_iff₂]
  constructor
  · rintro ⟨⟨w, hw, rfl⟩, hle, hleast⟩
    exact ⟨w, hw, rfl, hle, hleast⟩
  · rintro ⟨w, hw, rfl, hle, hleast⟩
    exact ⟨⟨w, hw, rfl⟩, hle, hleast⟩

theorem openingOn_eq_none : calendar.openingOn t day = none ↔
    ∀ w ∈ calendar.windowsOn day, calendar.opensAt day w < t := by
  simp [openingOn, List.find?_eq_none, mem_sortBy]

theorem findSome?_range_iff {α : Type*} {f : ℕ → Option α} {n : ℕ} {a : α} :
    (List.range n).findSome? f = some a ↔ ∃ i < n, f i = some a ∧ ∀ j < i, f j = none := by
  induction n with
  | zero => simp
  | succ n ih =>
    rw [List.range_succ, List.findSome?_append, Option.or_eq_some_iff, ih,
      List.findSome?_eq_none_iff, List.findSome?_singleton]
    constructor
    · rintro (⟨i, hi, hfound⟩ | ⟨hnone, hfound⟩)
      · exact ⟨i, by omega, hfound⟩
      · exact ⟨n, n.lt_succ_self, hfound, fun j hj => hnone j (List.mem_range.mpr hj)⟩
    · rintro ⟨i, hi, hfound, hnone⟩
      rcases Nat.lt_succ_iff_lt_or_eq.mp hi with hi | rfl
      · exact Or.inl ⟨i, hi, hfound, hnone⟩
      · exact Or.inr ⟨fun j hj => hnone j (List.mem_range.mp hj), hfound⟩

/-- **While the market is shut**, the next open is the first opening of the days searched. -/
theorem nextOpen_iff (hshut : ¬ calendar.IsOpen t) : calendar.nextOpen t = some u ↔
    ∃ day w, calendar.FirstOpening t day w ∧ calendar.opensAt day w = u := by
  rw [nextOpen, if_neg hshut, findSome?_range_iff]
  constructor
  · rintro ⟨offset, hoffset, hfound, hnone⟩
    obtain ⟨w, hw, rfl, hle, hleast⟩ := openingOn_iff.mp hfound
    refine ⟨_, w, ⟨⟨hw, by omega, by omega, hle⟩, ?_⟩, rfl⟩
    rintro day' w' ⟨hw', hfrom, hbounded, hopens⟩
    obtain ⟨other, hother⟩ := Int.eq_ofNat_of_zero_le (sub_nonneg.mpr hfrom)
    obtain rfl : day' = calendar.localDate t + other := by omega
    rcases lt_trichotomy offset other with hlt | rfl | hlt
    · exact Or.inl (by omega)
    · exact Or.inr ⟨rfl, hleast w' hw' hopens⟩
    · exact absurd (openingOn_eq_none.mp (hnone other hlt) w' hw') (not_lt.mpr hopens)
  · rintro ⟨day, w, ⟨⟨hw, hfrom, hbounded, hopens⟩, hfirst⟩, rfl⟩
    obtain ⟨offset, hoffset⟩ := Int.eq_ofNat_of_zero_le (sub_nonneg.mpr hfrom)
    obtain rfl : day = calendar.localDate t + offset := by omega
    refine ⟨offset, by omega, openingOn_iff.mpr ⟨w, hw, rfl, hopens, ?_⟩, ?_⟩
    · intro w' hw' hopens'
      rcases hfirst _ w' ⟨hw', hfrom, hbounded, hopens'⟩ with hlt | ⟨-, hle⟩
      · exact absurd hlt (lt_irrefl _)
      · exact hle
    · intro earlier hearlier
      refine openingOn_eq_none.mpr fun w' hw' => ?_
      by_contra hopens'
      rcases hfirst _ w' ⟨hw', by omega, by omega, not_lt.mp hopens'⟩ with hlt | ⟨heq, -⟩ <;> omega

theorem nextOpen_eq_none (hshut : ¬ calendar.IsOpen t) : calendar.nextOpen t = none ↔
    ∀ day w, ¬ calendar.Searched t day w := by
  constructor
  · rintro hnone day w ⟨hw, hfrom, hbounded, hopens⟩
    rw [nextOpen, if_neg hshut, List.findSome?_eq_none_iff] at hnone
    obtain ⟨offset, hoffset⟩ := Int.eq_ofNat_of_zero_le (sub_nonneg.mpr hfrom)
    obtain rfl : day = calendar.localDate t + offset := by omega
    have hlate := openingOn_eq_none.mp (hnone offset (List.mem_range.mpr (by omega))) w hw
    exact absurd hopens (not_le.mpr hlate)
  · intro hsearched
    rw [Option.eq_none_iff_forall_ne_some]
    intro u hu
    obtain ⟨day, w, hfirst, -⟩ := (nextOpen_iff hshut).mp hu
    exact hsearched day w hfirst.toSearched

theorem microseconds_div (x : ℤ) : microseconds ((x : ℚ) / 1000000) = x := by
  rw [microseconds, div_mul_cancel₀ _ (by norm_num)]
  exact Rounding.roundHalfEven_intCast x

theorem microseconds_mono : Monotone microseconds := fun _ _ h =>
  Rounding.roundHalfEven_mono (mul_le_mul_of_nonneg_right h (by norm_num))

/-- **A window's day is read at the instant it opens**: the clock shows that day then, or, where
    the opening is skipped, at most the day after. -/
theorem read_at_start (day : ℤ) (w : SessionWindow) :
    day = calendar.localDate (calendar.opensAt day w) - 1 ∨
      day = calendar.localDate (calendar.opensAt day w) := by
  have hshown : day * dayLength + w.opens ≤
        calendar.zone.localTime (calendar.zone.instantOf (day * dayLength + w.opens)) ∧
      calendar.zone.localTime (calendar.zone.instantOf (day * dayLength + w.opens)) ≤
        day * dayLength + w.opens + hourLength := Zone.localTime_instantOf _
  have hopens := w.opens_nonneg
  have hlt := w.opens_lt
  have hhour : dayLength = 24 * hourLength := rfl
  rw [localDate, opensAt, microseconds_div, Zone.dateOf]
  have hlow : day ≤ calendar.zone.localTime
      (calendar.zone.instantOf (day * dayLength + w.opens)) / dayLength :=
    (Int.le_ediv_iff_mul_le dayLength_pos).mpr (by omega)
  have hhigh : calendar.zone.localTime
      (calendar.zone.instantOf (day * dayLength + w.opens)) / dayLength < day + 2 :=
    (Int.ediv_lt_iff_lt_mul dayLength_pos).mpr (by rw [add_mul]; omega)
  omega

theorem isOpen_opensAt (hw : w ∈ calendar.windowsOn day)
    (h : calendar.opensAt day w < calendar.closesAt day w) :
    calendar.IsOpen (calendar.opensAt day w) :=
  isOpen_iff.mpr ⟨day, w, read_at_start day w, hw, le_rfl, h⟩

/-! ## What the two are to answer -/

variable (calendar)

/-- What `next_open` and `day_order_expiry` are to answer: the least instant the market is open
    at, none where no window with an instant in it opens within the bound, and the last close of
    that instant's trading day. -/
structure ExpiresWithItsDay (t : Instant) : Prop where
  opens : ∀ u ∈ calendar.nextOpen t, t ≤ u ∧ calendar.IsOpen u ∧
    ∀ v, t ≤ v → v < u → ¬ calendar.IsOpen v
  never : calendar.nextOpen t = none ↔ ¬ calendar.IsOpen t ∧
    ∀ day, ∀ w ∈ calendar.windowsOn day, t ≤ calendar.opensAt day w →
      day < calendar.localDate t + maxSessionSearchDays →
        calendar.closesAt day w ≤ calendar.opensAt day w
  never_expires : calendar.dayOrderExpiry t = none ↔ calendar.nextOpen t = none
  expires : ∀ u ∈ calendar.nextOpen t, ∀ e ∈ calendar.dayOrderExpiry t, u < e ∧
    ∃ day, calendar.tradingDayOf u = some day ∧
      (∃ w ∈ calendar.windowsOn day, calendar.closesAt day w = e) ∧
      ∀ w ∈ calendar.windowsOn day, calendar.closesAt day w ≤ e

def OpensWithin (t : Instant) : Prop :=
  ∃ day, ∃ w ∈ calendar.windowsOn day, t ≤ calendar.opensAt day w ∧
    day < calendar.localDate t + maxSessionSearchDays ∧
    calendar.opensAt day w < calendar.closesAt day w

structure OpensInTurn (t : Instant) : Prop where
  bounded : (∃ day w, calendar.Searched t day w) ↔ calendar.OpensWithin t
  contained : ∀ day w, calendar.FirstOpening t day w → ∃ day', ∃ w' ∈ calendar.windowsOn day',
    calendar.opensAt day' w' = calendar.opensAt day w ∧
      calendar.opensAt day w < calendar.closesAt day' w'
  first : ∀ day w, calendar.FirstOpening t day w → ∀ day', ∀ w' ∈ calendar.windowsOn day',
    calendar.opensAt day' w' < calendar.closesAt day' w' → t ≤ calendar.opensAt day' w' →
      calendar.opensAt day w ≤ calendar.opensAt day' w'
  /-- and no window that has opened by then, of a day the clock was set back before, is still to
      be read before the first. -/
  unread : ∀ day w, calendar.FirstOpening t day w → ∀ day', ∀ w' ∈ calendar.windowsOn day',
    calendar.opensAt day' w' < t → ∀ v, t < v → v < calendar.opensAt day w →
      v < calendar.closesAt day' w' →
        day' ≠ calendar.localDate v - 1 ∧ day' ≠ calendar.localDate v

variable {calendar}

theorem sessionBounds_last (hw : w ∈ calendar.windowsOn day) :
    ∃ first last, calendar.sessionBounds day = some (first, last) ∧
      (∃ w ∈ calendar.windowsOn day, calendar.closesAt day w = last) ∧
      ∀ w ∈ calendar.windowsOn day, calendar.closesAt day w ≤ last := by
  obtain ⟨first, hfirst⟩ := Option.isSome_iff_exists.mp
    (List.isSome_min?_of_mem (List.mem_map_of_mem (f := calendar.opensAt day) hw))
  obtain ⟨last, hlast⟩ := Option.isSome_iff_exists.mp
    (List.isSome_max?_of_mem (List.mem_map_of_mem (f := calendar.closesAt day) hw))
  obtain ⟨hmem, hmost⟩ := List.max?_eq_some_iff.mp hlast
  refine ⟨first, last, by rw [sessionBounds, hfirst, hlast]; rfl, List.mem_map.mp hmem, ?_⟩
  exact fun w hw => hmost _ (List.mem_map_of_mem hw)

theorem tradingDayOf_of_isOpen (h : calendar.IsOpen t) : ∃ day w,
    calendar.tradingDayOf t = some day ∧ w ∈ calendar.windowsOn day ∧
      calendar.InProgress t (day, w) := by
  obtain ⟨read, hread, hin⟩ := h
  have hsome : ((calendar.windowsRead t).find? fun read => calendar.InProgress t read).isSome :=
    List.find?_isSome.mpr ⟨read, hread, decide_eq_true hin⟩
  obtain ⟨⟨day, w⟩, hfound⟩ := Option.isSome_iff_exists.mp hsome
  refine ⟨day, w, by rw [tradingDayOf, hfound]; rfl, ?_, ?_⟩
  · exact (mem_windowsRead.mp (List.mem_of_find?_eq_some hfound)).2
  · simpa using List.find?_some hfound

/-- **An order that is queued for an instant the market is open at** expires at the last close of
    its trading day. -/
theorem expiry_of_isOpen (hnext : calendar.nextOpen t = some u) (hopen : calendar.IsOpen u) :
    ∃ e day, calendar.dayOrderExpiry t = some e ∧ u < e ∧ calendar.tradingDayOf u = some day ∧
      (∃ w ∈ calendar.windowsOn day, calendar.closesAt day w = e) ∧
      ∀ w ∈ calendar.windowsOn day, calendar.closesAt day w ≤ e := by
  obtain ⟨day, w, hday, hw, hin⟩ := tradingDayOf_of_isOpen hopen
  obtain ⟨first, last, hbounds, hlast, hmost⟩ := sessionBounds_last hw
  refine ⟨last, day, ?_, hin.2.trans_le (hmost w hw), hday, hlast, hmost⟩
  rw [dayOrderExpiry, hnext, Option.bind_some, hday, Option.bind_some, hbounds, Option.map_some]

theorem expiresWithItsDay_of_next (hnext : calendar.nextOpen t = some u) (hle : t ≤ u)
    (hopen : calendar.IsOpen u) (hleast : ∀ v, t ≤ v → v < u → ¬ calendar.IsOpen v)
    (hwithin : calendar.IsOpen t ∨ calendar.OpensWithin t) : calendar.ExpiresWithItsDay t := by
  obtain ⟨e, day, hexpiry, hlt, hday, hlast, hmost⟩ := expiry_of_isOpen hnext hopen
  refine ⟨?_, ?_, ?_, ?_⟩
  · intro u' hu'
    obtain rfl := Option.some.inj (hnext.symm.trans (Option.mem_def.mp hu'))
    exact ⟨hle, hopen, hleast⟩
  · refine iff_of_false (by rw [hnext]; exact (fun h => nomatch h)) ?_
    rintro ⟨hshut, hempty⟩
    rcases hwithin with h | ⟨day, w, hw, hopens, hbounded, hin⟩
    · exact hshut h
    · exact absurd (hempty day w hw hopens hbounded) (not_le.mpr hin)
  · exact iff_of_false (by rw [hexpiry]; exact (fun h => nomatch h))
      (by rw [hnext]; exact (fun h => nomatch h))
  · intro u' hu' e' he'
    obtain rfl := Option.some.inj (hnext.symm.trans (Option.mem_def.mp hu'))
    obtain rfl := Option.some.inj (hexpiry.symm.trans (Option.mem_def.mp he'))
    exact ⟨hlt, day, hday, hlast, hmost⟩

theorem expiresWithItsDay_of_none (hshut : ¬ calendar.IsOpen t)
    (hnone : calendar.nextOpen t = none) (hwithin : ¬ calendar.OpensWithin t) :
    calendar.ExpiresWithItsDay t := by
  have hexpiry : calendar.dayOrderExpiry t = none := by rw [dayOrderExpiry, hnone]; rfl
  refine ⟨?_, ?_, ?_, ?_⟩
  · rw [hnone]
    exact fun u hu => nomatch hu
  · refine iff_of_true hnone ⟨hshut, fun day w hw hopens hbounded => ?_⟩
    by_contra hin
    exact hwithin ⟨day, w, hw, hopens, hbounded, not_le.mp hin⟩
  · exact iff_of_true hexpiry hnone
  · rw [hnone]
    exact fun u hu => nomatch hu

/-- **No day comes back into view when a window opens**: if a window of the day opened before,
    and the day is not in view just before, then it is not in view at that opening. -/
theorem not_back_in_view {x : SessionWindow} {day' : ℤ}
    (hearlier : calendar.opensAt day' x < calendar.opensAt day w)
    (hv : microseconds v = calendar.zone.instantOf (day * dayLength + w.opens) - 1)
    (hunread : ¬ (day' = calendar.localDate v - 1 ∨ day' = calendar.localDate v)) :
    ¬ (day' = calendar.localDate (calendar.opensAt day w) - 1 ∨
      day' = calendar.localDate (calendar.opensAt day w)) := by
  intro hread
  set zone := calendar.zone with hzone
  set instant := zone.instantOf (day * dayLength + w.opens) with hinstant
  set opened := zone.instantOf (day' * dayLength + x.opens) with hopened
  have hbefore : opened < instant := by
    have h := hearlier
    rw [opensAt, opensAt, ← hzone, ← hinstant, ← hopened,
      div_lt_div_iff_of_pos_right (by norm_num)] at h
    exact_mod_cast h
  have hdate : calendar.localDate v = zone.dateOf (instant - 1) := by rw [localDate, hv]
  have hdate' : calendar.localDate (calendar.opensAt day w) = zone.dateOf instant := by
    rw [localDate, opensAt, microseconds_div]
  have hlater : zone.localTime (instant - 1) < zone.localTime instant :=
    Zone.localTime_lt_instantOf (by omega)
  have hdates : zone.dateOf (instant - 1) ≤ zone.dateOf instant :=
    Int.ediv_le_ediv dayLength_pos hlater.le
  rw [hdate] at hunread
  rw [hdate'] at hread
  -- the day begins at the opening, and had begun when its own window opened
  have hbegins : zone.dateOf (instant - 1) < day' ∧ day' ≤ zone.dateOf instant := by omega
  have hstart : zone.localTime (instant - 1) < day' * dayLength :=
    (Int.ediv_lt_iff_lt_mul dayLength_pos).mp hbegins.1
  have hshown : day' * dayLength ≤ zone.localTime opened := by
    have hreads : day' * dayLength + x.opens ≤ zone.localTime opened :=
      (Zone.localTime_instantOf _).1
    have := x.opens_nonneg
    omega
  have hpassed : zone.localTime opened < zone.localTime instant :=
    Zone.localTime_lt_instantOf hbefore
  -- so the clock jumps over the beginning of the day it had shown
  have hjump : zone.localTime instant ≠ zone.localTime (instant - 1) + 1 := by omega
  have hchange := Zone.localTime_le_of_change hjump hbefore
  omega

/-- At the first opening the market is open at, a window with an instant in it opens. -/
theorem contained_of_isOpen (hshut : ¬ calendar.IsOpen t) (hle : t ≤ calendar.opensAt day w)
    (hopen : calendar.IsOpen (calendar.opensAt day w))
    (hleast : ∀ v, t ≤ v → v < calendar.opensAt day w → ¬ calendar.IsOpen v) :
    ∃ day', ∃ w' ∈ calendar.windowsOn day', calendar.opensAt day' w' = calendar.opensAt day w ∧
      calendar.opensAt day w < calendar.closesAt day' w' := by
  obtain ⟨day', x, hread, hx, hstart, hend⟩ := isOpen_iff.mp hopen
  refine ⟨day', x, hx, ?_, hend⟩
  by_contra hne
  have hearlier : calendar.opensAt day' x < calendar.opensAt day w := lt_of_le_of_ne hstart hne
  rcases le_or_gt t (calendar.opensAt day' x) with hlate | hlate
  · exact hleast _ hlate hearlier (isOpen_opensAt hx (hearlier.trans hend))
  have hlt : t < calendar.opensAt day w := by
    refine lt_of_le_of_ne hle ?_
    rintro rfl
    exact hshut hopen
  -- the last microsecond before the opening, or the instant itself if it is nearer
  have hunread : ∀ v, t ≤ v → v < calendar.opensAt day w →
      ¬ (day' = calendar.localDate v - 1 ∨ day' = calendar.localDate v) := by
    intro v htv hvu hin
    refine hleast v htv hvu (isOpen_iff.mpr ⟨day', x, hin, hx, (hlate.trans_le htv).le, ?_⟩)
    exact hvu.trans hend
  have hinstant : ((calendar.zone.instantOf (day * dayLength + w.opens) - 1 : ℤ) : ℚ) / 1000000 <
      calendar.opensAt day w := by
    rw [opensAt, div_lt_div_iff_of_pos_right (by norm_num)]
    push_cast
    linarith
  obtain ⟨v, htv, hvu, hv⟩ : ∃ v, t ≤ v ∧ v < calendar.opensAt day w ∧
      (microseconds v = calendar.zone.instantOf (day * dayLength + w.opens) - 1 ∨
        microseconds v = calendar.zone.instantOf (day * dayLength + w.opens)) := by
    refine ⟨max t _, le_max_left _ _, max_lt hlt hinstant, ?_⟩
    have hlow := microseconds_mono (le_max_right t
      (((calendar.zone.instantOf (day * dayLength + w.opens) - 1 : ℤ) : ℚ) / 1000000))
    have hhigh := microseconds_mono (max_lt hlt hinstant).le
    rw [microseconds_div] at hlow
    rw [opensAt, microseconds_div] at hhigh
    omega
  rcases hv with hv | hv
  · exact not_back_in_view hearlier hv (hunread v htv hvu) hread
  · refine hunread v htv hvu ?_
    rw [localDate, hv]
    rw [localDate, opensAt, microseconds_div] at hread
    exact hread

theorem OpensInTurn.not_isOpen (h : calendar.OpensInTurn t) (hshut : ¬ calendar.IsOpen t)
    (hfirst : calendar.FirstOpening t day w) (htv : t ≤ v) (hv : v < calendar.opensAt day w) :
    ¬ calendar.IsOpen v := by
  intro hopen
  obtain ⟨day', x, hread, hx, hstart, hend⟩ := isOpen_iff.mp hopen
  rcases le_or_gt t (calendar.opensAt day' x) with hlate | hlate
  · have := h.first day w hfirst day' x hx (hstart.trans_lt hend) hlate
    exact absurd (hstart.trans_lt hv) (not_lt.mpr this)
  · rcases htv.eq_or_lt with rfl | htv
    · exact hshut hopen
    · have hunread := h.unread day w hfirst day' x hx hlate v htv hv hend
      exact hread.elim hunread.1 hunread.2

/-- **A day order lives to the last close of its own trading day**, and the next open is the next
    instant the market is open at, iff it is open or its openings come in turn. -/
theorem expires_with_its_day_iff (calendar : MarketCalendar) (t : Instant) :
    calendar.ExpiresWithItsDay t ↔ calendar.IsOpen t ∨ calendar.OpensInTurn t := by
  by_cases hshut : calendar.IsOpen t
  · refine iff_of_true ?_ (Or.inl hshut)
    have hnext : calendar.nextOpen t = some t := if_pos hshut
    exact expiresWithItsDay_of_next hnext le_rfl hshut (fun v h h' => absurd h (not_le.mpr h'))
      (Or.inl hshut)
  rw [or_iff_right hshut]
  constructor
  · intro h
    have hnext : ∀ {day w}, calendar.FirstOpening t day w →
        calendar.nextOpen t = some (calendar.opensAt day w) :=
      fun hfirst => (nextOpen_iff hshut).mpr ⟨_, _, hfirst, rfl⟩
    refine ⟨?_, ?_, ?_, ?_⟩
    · have hnone : (∀ day w, ¬ calendar.Searched t day w) ↔ ¬ calendar.OpensWithin t := by
        rw [← nextOpen_eq_none hshut, h.never]
        constructor
        · rintro ⟨-, hempty⟩ ⟨day, w, hw, hopens, hbounded, hin⟩
          exact absurd (hempty day w hw hopens hbounded) (not_le.mpr hin)
        · intro hwithin
          refine ⟨hshut, fun day w hw hopens hbounded => ?_⟩
          by_contra hin
          exact hwithin ⟨day, w, hw, hopens, hbounded, not_le.mp hin⟩
      have := not_congr hnone
      push Not at this
      exact this
    · intro day w hfirst
      obtain ⟨hle, hopen, hleast⟩ := h.opens _ (hnext hfirst)
      exact contained_of_isOpen hshut hle hopen hleast
    · intro day w hfirst day' x hx hin hlate
      obtain ⟨-, -, hleast⟩ := h.opens _ (hnext hfirst)
      by_contra hearlier
      exact hleast _ hlate (not_le.mp hearlier) (isOpen_opensAt hx hin)
    · intro day w hfirst day' x hx hopened v htv hv hend
      obtain ⟨-, -, hleast⟩ := h.opens _ (hnext hfirst)
      rw [← not_or]
      intro hread
      exact hleast v htv.le hv (isOpen_iff.mpr ⟨day', x, hread, hx, (hopened.trans htv).le, hend⟩)
  · intro h
    cases hnext : calendar.nextOpen t with
    | none =>
      refine expiresWithItsDay_of_none hshut hnext fun hwithin => ?_
      obtain ⟨day, w, hsearched⟩ := h.bounded.mpr hwithin
      exact (nextOpen_eq_none hshut).mp hnext day w hsearched
    | some u =>
      obtain ⟨day, w, hfirst, rfl⟩ := (nextOpen_iff hshut).mp hnext
      obtain ⟨day', x, hx, hstart, hend⟩ := h.contained day w hfirst
      have hopen : calendar.IsOpen (calendar.opensAt day w) := by
        have := isOpen_opensAt hx (hstart.trans_lt hend)
        rwa [hstart] at this
      exact expiresWithItsDay_of_next hnext hfirst.opens hopen
        (fun v htv hv => h.not_isOpen hshut hfirst htv hv)
        (Or.inr (h.bounded.mp ⟨day, w, hfirst.toSearched⟩))

/-- A market of one session, from a quarter past two to ten past three of the night that clocks go
    forward in New York. -/
def springNight : MarketCalendar where
  zone := {
    initial := -5 * hourLength
    changes := [(1741503600000000, -4 * hourLength)] }
  weeklySessions := .empty
  specialSessions := Dict.empty.set 20156 [{ opens := 8100000000, closes := 11400000000 }]

/-- From midnight on, its next open is an instant it is not open at, and an order queued for that
    has no expiry: the session opens at a time that is skipped, and closes before it is read. -/
theorem skipped_opening_never_expires :
    springNight.nextOpen 1741496400 = some 1741504500 ∧ ¬ springNight.IsOpen 1741504500 ∧
      springNight.dayOrderExpiry 1741496400 = none ∧
      ¬ springNight.ExpiresWithItsDay 1741496400 := by
  have hnext : springNight.nextOpen 1741496400 = some 1741504500 := by decide +kernel
  have hshut : ¬ springNight.IsOpen 1741504500 := by decide +kernel
  have hexpiry : springNight.dayOrderExpiry 1741496400 = none := by decide +kernel
  refine ⟨hnext, hshut, hexpiry, fun h => ?_⟩
  exact hshut (h.opens _ hnext).2.1

end MarketCalendar

end AlphaLab
