/-
  The timeline of a series against the reads it stands for (`alt_data/observation_set.py`:
  `latest_timeline`, `latest_in_series`).

  * the timeline keeps the greatest record seen in the order (`displace_foldl`), the point read
    replaces each figure by its highest revision first (`mem_latestVintages`);
  * `timeline_answers_iff`: they answer alike at every instant exactly where no revision takes
    the place of a record that stands after everything known.
-/
import AlphaLab.AltData.FundamentalRecords
import AlphaLab.AltData.Reads
import AlphaLab.Lib.Newest

namespace AlphaLab

open Fallible SetRecord ObservationView

section
variable {α κ : Type} [LinearOrder κ] {key : α → κ}

theorem le_maxBy {l : List α} {a : α} (h : maxBy key l = some a) : ∀ b ∈ l, key b ≤ key a := by
  cases l with
  | nil => cases h
  | cons c l =>
    obtain rfl := Option.some.inj h
    clear h
    induction l generalizing c with
    | nil => simp
    | cons d l ih =>
      intro b hb
      rw [List.foldl_cons]
      split_ifs with hlt
      · rcases List.mem_cons.mp hb with rfl | hb
        · exact hlt.le.trans (ih d d (by simp))
        · exact ih d b hb
      · rcases List.mem_cons.mp hb with rfl | hb
        · exact ih b b (by simp)
        · rcases List.mem_cons.mp hb with rfl | hb
          · exact (not_lt.mp hlt).trans (ih c c (by simp))
          · exact ih c b (by simp [hb])

/-- Of a list that has a greatest entry, `maxBy` finds it. -/
theorem maxBy_eq {l : List α} {a : α} (hinj : ∀ a ∈ l, ∀ b ∈ l, key a = key b → a = b)
    (ha : a ∈ l)
    (hmost : ∀ b ∈ l, key b ≤ key a) : maxBy key l = some a := by
  cases hmax : maxBy key l with
  | none =>
    cases l with
    | nil => cases ha
    | cons b l => cases hmax
  | some b =>
    have hb := mem_of_maxBy hmax
    rw [hinj b hb a ha (le_antisymm (hmost b hb) (le_maxBy hmax a ha))]

theorem getLast?_sortBy_eq {l : List α} (hinj : ∀ a ∈ l, ∀ b ∈ l, key a = key b → a = b) :
    (sortBy key l).getLast? = maxBy key l := by
  cases hmax : maxBy key l with
  | none =>
    cases l with
    | nil => rfl
    | cons b l => cases hmax
  | some a => exact getLast?_sortBy hinj (mem_of_maxBy hmax) (le_maxBy hmax)

end

variable {T : Type} [SetRecord T]

def eligible (policy : VintagePolicy) (r : T) : Bool := policy = .asKnown || revision r = 0

theorem displace_foldl (policy : VintagePolicy) (l : List T) :
    l.foldl (displace policy) none = maxBy ordering (l.filter (eligible policy)) := by
  have hskip : ∀ {best : Option T} {r : T}, eligible policy r = false →
      displace policy best r = best := by
    intro best r hr
    refine if_pos ?_
    cases policy <;> simp_all [eligible]
  have htake : ∀ {best : Option T} {r : T}, eligible policy r = true →
      displace policy best r = if ∀ b ∈ best, ordering b < ordering r then some r else best := by
    intro best r hr
    refine if_neg ?_
    cases policy <;> simp_all [eligible]
  -- from a record on, the two folds go together
  have hfrom : ∀ (l : List T) (b : T), l.foldl (displace policy) (some b) =
      some ((l.filter (eligible policy)).foldl
        (fun best r => if ordering best < ordering r then r else best) b) := by
    intro l
    induction l with
    | nil => exact fun b => rfl
    | cons r l ih =>
      intro b
      rw [List.foldl_cons]
      cases hr : eligible policy r with
      | false => rw [hskip hr, ih, List.filter_cons_of_neg (by simp [hr])]
      | true =>
        rw [htake hr, List.filter_cons_of_pos hr, List.foldl_cons]
        by_cases hlt : ordering b < ordering r
        · rw [if_pos (by simpa using hlt), if_pos hlt, ih]
        · rw [if_neg (by simpa using hlt), if_neg hlt, ih]
  induction l with
  | nil => rfl
  | cons r l ih =>
    rw [List.foldl_cons]
    cases hr : eligible policy r with
    | false => rw [hskip hr, ih, List.filter_cons_of_neg (by simp [hr])]
    | true =>
      rw [htake hr, if_pos (by simp), hfrom, List.filter_cons_of_pos hr]
      rfl

theorem takeVintage_eq (best : Dict (List String) T) (r : T) :
    takeVintage best r = Newest.keepNewest vintageKey revision best r := by
  unfold takeVintage Newest.keepNewest
  cases hget : best.get? (vintageKey r) with
  | none => simp
  | some found => simp

theorem foldl_takeVintage (l : List T) :
    l.foldl takeVintage Dict.empty = Newest.newest vintageKey revision Dict.empty l := by
  rw [Newest.newest]
  congr 1
  funext best a
  exact takeVintage_eq best a

/-- **The latest vintages are the records no other revises.** -/
theorem mem_latestVintages {l : List T} (hclaims : ∀ a ∈ l, ∀ b ∈ l, SameClaim a b → a = b)
    {r : T} : r ∈ latestVintages l ↔
      r ∈ l ∧ ∀ b ∈ l, vintageKey b = vintageKey r → revision b ≤ revision r := by
  rw [latestVintages, mem_sortBy, foldl_takeVintage]
  refine Newest.mem_values_newest ?_
  intro a ha b hb hfigure hrevision
  exact hclaims a ha b hb ⟨hfigure, hrevision⟩

theorem eq_of_ordering {l : List T} (hclaims : ∀ a ∈ l, ∀ b ∈ l, SameClaim a b → a = b) :
    ∀ a ∈ l, ∀ b ∈ l, (ordering a : Instant ×ₗ List String ×ₗ ℤ) = ordering b → a = b := by
  intro a ha b hb hab
  have hfigure : vintageKey a = vintageKey b := congrArg (fun p => (ofLex (ofLex p).2).1) hab
  have hrevision : revision a = revision b := congrArg (fun p => (ofLex (ofLex p).2).2) hab
  exact hclaims a ha b hb ⟨hfigure, hrevision⟩

theorem kept_eq_latest_iff {l : List T} (hclaims : ∀ a ∈ l, ∀ b ∈ l, SameClaim a b → a = b) :
    maxBy ordering l = (latestVintages l).getLast? ↔
      ∀ a ∈ l, ∀ b ∈ l, vintageKey a = vintageKey b → revision a < revision b →
        ∃ c ∈ l, (ordering a : Instant ×ₗ List String ×ₗ ℤ) < ordering c := by
  have hinj := eq_of_ordering hclaims
  constructor
  · intro heq a ha b hb hfigure hlt
    by_contra hlast
    push Not at hlast
    rw [maxBy_eq hinj ha hlast] at heq
    have hlatest := (mem_latestVintages hclaims).mp (List.mem_of_getLast? heq.symm)
    exact absurd (hlatest.2 b hb hfigure.symm) (not_le.mpr hlt)
  · intro hretreat
    cases hmax : maxBy ordering l with
    | none =>
      cases l with
      | nil => rfl
      | cons b l => cases hmax
    | some m =>
      have hm := mem_of_maxBy hmax
      have hmost := le_maxBy hmax
      have hlatest : m ∈ latestVintages l := by
        refine (mem_latestVintages hclaims).mpr ⟨hm, ?_⟩
        intro b hb hfigure
        by_contra hlt
        obtain ⟨c, hc, hafter⟩ := hretreat m hm b hb hfigure.symm (not_le.mp hlt)
        exact absurd (hmost c hc) (not_le.mpr hafter)
      have hsub : ∀ b ∈ (l.foldl takeVintage Dict.empty).values, b ∈ l := by
        intro b hb
        exact mem_of_latestVintages (mem_sortBy.mpr hb)
      refine (getLast?_sortBy ?_ (mem_sortBy.mp hlatest) fun b hb => hmost b (hsub b hb)).symm
      exact fun a ha b hb => hinj a (hsub a ha) b (hsub b hb)

/-! ## Timelines and point reads -/

def answerAt (asOf : Instant) (timeline : List (Instant × T)) : Option T :=
  (timeline.filter fun e => e.1 ≤ asOf).getLast?.map Prod.snd

/-- No record of a series that another revises stands after everything known by then. -/
def NeverRetreats (set : ObservationSet T) (visibility : VisibilityRule) (key : List String) :
    Prop :=
  ∀ asOf : Instant, ∀ a ∈ set.records, ∀ b ∈ set.records, seriesKey a = key → seriesKey b = key →
    isVisible asOf visibility a → isVisible asOf visibility b →
    vintageKey a = vintageKey b → revision a < revision b →
    ∃ c ∈ set.records, seriesKey c = key ∧ isVisible asOf visibility c ∧
      (ordering a : Instant ×ₗ List String ×ₗ ℤ) < ordering c

section
variable {set : ObservationSet T} {visibility : VisibilityRule} {key : List String}
  {policy : VintagePolicy}

theorem eq_of_sameClaim {a b : T} (ha : a ∈ set.records) (hb : b ∈ set.records)
    (hclaim : SameClaim a b) : a = b := by
  have hsymm : Std.Symm fun a b : T => ¬ SameClaim a b := ⟨fun _ _ hnot h => hnot h.symm⟩
  by_contra hne
  exact set.agree.claims.forall ha hb hne hclaim

/-- **The timeline's answer is the greatest record known by then.** -/
theorem answerAt_timeline (asOf : Instant) {timeline : List (Instant × T)}
    (hkey : key ∈ (of set visibility).seriesKeys)
    (htimeline : (of set visibility).latestTimeline key policy = .ok timeline) :
    answerAt asOf timeline =
      maxBy ordering (((seriesIndex set visibility key).visibleAsOf asOf).filter
        (eligible policy)) := by
  have hheld : ∀ r ∈ answerAt asOf timeline, r ∈ set.records := by
    intro r hr
    obtain ⟨e, he, rfl⟩ := Option.map_eq_some_iff.mp hr
    have hmem := (List.mem_filter.mp (List.mem_of_getLast? he)).1
    exact (knowable_of_latestTimeline htimeline e hmem).held
  have hvisible : ∀ r ∈ maxBy ordering (((seriesIndex set visibility key).visibleAsOf asOf).filter
      (eligible policy)), r ∈ set.records := by
    intro r hr
    exact (mem_visible_series.mp (List.mem_filter.mp (mem_of_maxBy hr)).1).1
  have hids : (answerAt asOf timeline).map recordId =
      (maxBy ordering (((seriesIndex set visibility key).visibleAsOf asOf).filter
        (eligible policy))).map recordId := by
    rw [latestTimeline, indexOf_eq hkey] at htimeline
    obtain rfl := Except.ok.inj htimeline
    rw [answerAt, filter_sweep_eq emitsAt_appendChange (seriesIndex set visibility key).ordered,
      PointInTimeIndex.visibleAsOf_eq, ← displace_foldl, List.foldl_map, Option.map_map]
    -- the timeline is empty until there is a record
    have hstep : ∀ (best : Option T) (r : T) (timeline : List (Instant × T)),
        (best = none → timeline = []) → displace policy best r = none → timeline = [] := by
      intro best r timeline hJ hnone
      refine hJ ?_
      unfold displace at hnone
      split_ifs at hnone
      · exact hnone
      · exact hnone
    have hemit : ∀ (i : Instant) (best : Option T) (timeline : List (Instant × T)),
        (best = none → timeline = []) →
          (appendChange i best timeline).getLast?.map (fun e => recordId e.2) =
              best.map recordId ∧
            (best = none → appendChange i best timeline = []) := by
      intro i best timeline hJ
      cases best with
      | none => exact ⟨by simp [appendChange, hJ rfl], fun _ => hJ rfl⟩
      | some r =>
        refine ⟨?_, fun hnone => absurd hnone (Option.some_ne_none _)⟩
        rw [appendChange]
        split_ifs with hsame
        · exact hsame
        · simp
    cases hnil : (seriesIndex set visibility key).known.filter fun e => e.1 ≤ asOf with
    | nil => rfl
    | cons e later =>
      obtain ⟨i, -, hlast⟩ := getLast?_sweep hstep hemit (l := e :: later) (by simp) fun _ => rfl
      exact hlast
  cases ha : answerAt asOf timeline with
  | none =>
    rw [ha] at hids
    exact (Option.map_eq_none_iff.mp hids.symm).symm
  | some r =>
    rw [ha] at hids
    obtain ⟨r', hr', hid⟩ := Option.map_eq_some_iff.mp hids.symm
    rw [hr', set.agree.ids.eq (hvisible r' hr') (hheld r ha) hid]

/-- Where the point read is the greatest record known by then. -/
theorem latest_eq_iff (asOf : Instant) :
    maxBy ordering (((seriesIndex set visibility key).visibleAsOf asOf).filter
        (eligible policy)) =
      (chosen policy ((seriesIndex set visibility key).visibleAsOf asOf)).getLast? ↔
    (policy = .asKnown → ∀ a ∈ (seriesIndex set visibility key).visibleAsOf asOf,
      ∀ b ∈ (seriesIndex set visibility key).visibleAsOf asOf,
        vintageKey a = vintageKey b → revision a < revision b →
          ∃ c ∈ (seriesIndex set visibility key).visibleAsOf asOf,
            (ordering a : Instant ×ₗ List String ×ₗ ℤ) < ordering c) := by
  have hclaims : ∀ a ∈ (seriesIndex set visibility key).visibleAsOf asOf,
      ∀ b ∈ (seriesIndex set visibility key).visibleAsOf asOf, SameClaim a b → a = b := by
    intro a ha b hb
    exact eq_of_sameClaim (mem_visible_series.mp ha).1 (mem_visible_series.mp hb).1
  cases policy with
  | asKnown =>
    have hall : ((seriesIndex set visibility key).visibleAsOf asOf).filter (eligible .asKnown) =
        (seriesIndex set visibility key).visibleAsOf asOf := by simp [eligible]
    rw [hall, chosen, kept_eq_latest_iff hclaims]
    exact ⟨fun h _ => h, fun h => h rfl⟩
  | original =>
    refine iff_of_true ?_ fun h => nomatch h
    have hsame : ((seriesIndex set visibility key).visibleAsOf asOf).filter
        (eligible .original) = ((seriesIndex set visibility key).visibleAsOf asOf).filter
          fun r => revision r = 0 := List.filter_congr fun r _ => by simp [eligible]
    rw [hsame, chosen, originalVintages]
    refine (getLast?_sortBy_eq ?_).symm
    intro a ha b hb
    exact eq_of_ordering hclaims a (List.mem_filter.mp ha).1 b (List.mem_filter.mp hb).1

variable (set visibility key policy)

/-- **The timeline of a series answers as the point read does, at every instant, if and only
    if no revision takes the place of a record that stands after everything known**; of the
    originals it always does. -/
theorem timeline_answers_iff :
    (∀ asOf, ((of set visibility).latestTimeline key policy).map (answerAt asOf) =
        (of set visibility).latestInSeries key asOf policy) ↔
      (policy = .asKnown → NeverRetreats set visibility key) := by
  by_cases hkey : key ∈ (of set visibility).seriesKeys
  · have hpoint : ∀ asOf, ((of set visibility).latestTimeline key policy).map (answerAt asOf) =
        (of set visibility).latestInSeries key asOf policy ↔
      maxBy ordering (((seriesIndex set visibility key).visibleAsOf asOf).filter
          (eligible policy)) =
        (chosen policy ((seriesIndex set visibility key).visibleAsOf asOf)).getLast? := by
      intro asOf
      obtain ⟨timeline, htimeline⟩ :
          ∃ timeline, (of set visibility).latestTimeline key policy = .ok timeline := by
        rw [latestTimeline, indexOf_eq hkey]
        exact ⟨_, rfl⟩
      rw [latestInSeries, visibleInSeries_eq hkey, htimeline,
        ← answerAt_timeline asOf hkey htimeline]
      exact ok_inj
    simp only [hpoint, latest_eq_iff, mem_visible_series, NeverRetreats]
    constructor
    · intro h hpolicy asOf a ha b hb hka hkb hva hvb hfigure hlt
      obtain ⟨c, ⟨hc, hkc, hvc⟩, hafter⟩ :=
        h asOf hpolicy a ⟨ha, hka, hva⟩ b ⟨hb, hkb, hvb⟩ hfigure hlt
      exact ⟨c, hc, hkc, hvc, hafter⟩
    · rintro h asOf hpolicy a ⟨ha, hka, hva⟩ b ⟨hb, hkb, hvb⟩ hfigure hlt
      obtain ⟨c, hc, hkc, hvc, hafter⟩ :=
        h hpolicy asOf a ha b hb hka hkb hva hvb hfigure hlt
      exact ⟨c, ⟨hc, hkc, hvc⟩, hafter⟩
  · refine iff_of_true ?_ ?_
    · intro asOf
      have hnone : (of set visibility).indexOf key = .error ⟨(of set visibility).setVersion, key⟩ := by
        rw [seriesKeys_of] at hkey
        have hlookup : (of set visibility).series.lookup key = none :=
          (lookup_map (seriesIndex set visibility) key _).trans (if_neg hkey)
        rw [indexOf, hlookup]
        rfl
      rw [latestTimeline, latestInSeries, visibleInSeries, hnone]
      rfl
    · intro _ asOf a ha b hb hka
      exact absurd (mem_seriesKeys.mpr ⟨a, ha, hka⟩) hkey

end

/-- The quarter as first stated, and restated with a shorter period. -/
def shortened : List FundamentalObservation :=
  [quarterFiled 2024 1 1 2 5 "restated", quarterFiled 2024 1 0 3 4 "stated"]

def shortenedSet : ObservationSet FundamentalObservation where
  name := figuresName
  kind := "alphalab.fundamental.v1"
  source := ⟨"filings", none, none, none⟩
  records := shortened
  parentVersion := none
  transformations := []
  checked := by decide +kernel

def shortenedSeries : List String := ["filings", "None", "ISSUER", "INCOME_STATEMENT", "revenue"]

/-- Once the quarter is restated with an earlier end, the point read answers the restatement and
    the timeline still the figure that it replaced. -/
theorem restatement_missed :
    ¬ ((of shortenedSet .publication).latestTimeline shortenedSeries .asKnown).map (answerAt 5) =
      (of shortenedSet .publication).latestInSeries shortenedSeries 5 .asKnown := by
  intro heq
  have hids := congrArg (fun r => r.toOption.map fun latest => latest.map recordId) heq
  exact absurd hids (by decide +kernel)

end AlphaLab
