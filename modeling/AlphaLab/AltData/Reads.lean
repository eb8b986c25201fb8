/-
  What views of two sets read alike, where the sets agree on what is known by an instant.

  * `reads_alike`: selections, series, figures and timelines are equal up to the instant;
  * `reads_knowable`: every record that is read is knowable at the instant it is read at.
-/
import AlphaLab.AltData.Views

namespace AlphaLab

open Fallible SetRecord ObservationView

variable {T : Type} [SetRecord T]

/-- A record of a set that may be known at an instant: it is visible, and someone stated when it
    became available. -/
structure Knowable (set : ObservationSet T) (visibility : VisibilityRule) (asOf : Instant)
    (r : T) : Prop where
  held : r ∈ set.records
  visible : isVisible asOf visibility r
  available : availableAt r ≠ none

structure ReadsAlike (set set' : ObservationSet T) (visibility : VisibilityRule) (asOf : Instant) :
    Prop where
  select : ((of set visibility).select asOf).records = ((of set' visibility).select asOf).records
  visibleInSeries : ∀ key ∈ (of set visibility).seriesKeys, key ∈ (of set' visibility).seriesKeys →
    (of set visibility).visibleInSeries key asOf = (of set' visibility).visibleInSeries key asOf
  latestInSeries : ∀ key ∈ (of set visibility).seriesKeys, key ∈ (of set' visibility).seriesKeys →
    ∀ policy, (of set visibility).latestInSeries key asOf policy =
      (of set' visibility).latestInSeries key asOf policy
  latestTimeline : ∀ key ∈ (of set visibility).seriesKeys, key ∈ (of set' visibility).seriesKeys →
    ∀ policy, ((of set visibility).latestTimeline key policy).map
        (fun timeline => timeline.filter fun e => e.1 ≤ asOf) =
      ((of set' visibility).latestTimeline key policy).map
        fun timeline => timeline.filter fun e => e.1 ≤ asOf
  vintageAsOf : ∀ key policy, (of set visibility).vintageAsOf key asOf policy =
    (of set' visibility).vintageAsOf key asOf policy

structure ReadsKnowable (set : ObservationSet T) (visibility : VisibilityRule) (asOf : Instant) :
    Prop where
  select : ∀ r ∈ ((of set visibility).select asOf).records, Knowable set visibility asOf r
  visibleInSeries : ∀ key rows, (of set visibility).visibleInSeries key asOf = .ok rows →
    ∀ r ∈ rows, Knowable set visibility asOf r
  latestInSeries : ∀ key policy latest,
    (of set visibility).latestInSeries key asOf policy = .ok latest →
      ∀ r ∈ latest, Knowable set visibility asOf r
  latestTimeline : ∀ key policy timeline,
    (of set visibility).latestTimeline key policy = .ok timeline →
      ∀ e ∈ timeline, Knowable set visibility e.1 e.2
  vintageAsOf : ∀ key policy, ∀ r ∈ (of set visibility).vintageAsOf key asOf policy,
    Knowable set visibility asOf r

section
variable {set set' : ObservationSet T} {visibility : VisibilityRule} {bound asOf : Instant}
  {key : List String} {r : T}

theorem SameUpTo.mem_visible_iff (h : SameUpTo visibility bound set.records set'.records)
    (hle : asOf ≤ bound) (hvisible : isVisible asOf visibility r) :
    r ∈ set.records ↔ r ∈ set'.records := by
  obtain ⟨known, hknown, hasOf⟩ := isVisible_iff.mp hvisible
  exact h r known hknown (hasOf.trans hle)

theorem SameUpTo.whole (h : SameUpTo visibility bound set.records set'.records)
    (hle : asOf ≤ bound) : (of set visibility).index.visibleAsOf asOf =
      (of set' visibility).index.visibleAsOf asOf := by
  change (PointInTimeIndex.build visibility set.records set.agree.ids).visibleAsOf asOf =
    (PointInTimeIndex.build visibility set'.records set'.agree.ids).visibleAsOf asOf
  exact h.visibleAsOf_eq hle

theorem SameUpTo.series (h : SameUpTo visibility bound set.records set'.records)
    (hle : asOf ≤ bound) (key : List String) :
    (seriesIndex set visibility key).visibleAsOf asOf =
      (seriesIndex set' visibility key).visibleAsOf asOf :=
  (h.filter fun r => seriesKey r = key).visibleAsOf_eq hle

theorem emitsAt_appendChange : EmitsAt Prod.fst (appendChange (T := T)) := by
  intro instant best timeline
  cases best with
  | none => exact Or.inl rfl
  | some r =>
    rw [appendChange]
    split_ifs
    · exact Or.inl rfl
    · exact Or.inr ⟨(instant, r), rfl, rfl⟩

/-- **Views of sets that agree up to an instant answer alike at it.** -/
theorem reads_alike (h : SameUpTo visibility bound set.records set'.records) (hle : asOf ≤ bound) :
    ReadsAlike set set' visibility asOf where
  select := h.whole hle
  visibleInSeries key hkey hkey' := by
    rw [visibleInSeries_eq hkey, visibleInSeries_eq hkey', h.series hle]
  latestInSeries key hkey hkey' policy := by
    rw [latestInSeries, latestInSeries, visibleInSeries_eq hkey, visibleInSeries_eq hkey',
      h.series hle]
  latestTimeline key hkey hkey' policy := by
    have hknown : (seriesIndex set visibility key).known.filter (fun e => e.1 ≤ asOf) =
        (seriesIndex set' visibility key).known.filter fun e => e.1 ≤ asOf :=
      (h.filter fun r => seriesKey r = key).known_eq hle
    rw [latestTimeline, latestTimeline, indexOf_eq hkey, indexOf_eq hkey']
    refine congrArg Except.ok ?_
    beta_reduce
    rw [filter_sweep emitsAt_appendChange (seriesIndex set visibility key).ordered,
      filter_sweep emitsAt_appendChange (seriesIndex set' visibility key).ordered, hknown]
  vintageAsOf key policy := by
    rw [vintageAsOf_eq, vintageAsOf_eq, h.whole hle]

/-! ## What is read is knowable -/

theorem knowable_of_visible (h : r ∈ (of set visibility).index.visibleAsOf asOf) :
    Knowable set visibility asOf r := by
  obtain ⟨hr, hvisible⟩ := (PointInTimeIndex.mem_visibleAsOf (h := set.agree.ids)).mp h
  exact ⟨hr, hvisible, availableAt_ne_none hvisible⟩

theorem knowable_of_series (h : r ∈ (seriesIndex set visibility key).visibleAsOf asOf) :
    Knowable set visibility asOf r := by
  obtain ⟨hr, -, hvisible⟩ := mem_visible_series.mp h
  exact ⟨hr, hvisible, availableAt_ne_none hvisible⟩

theorem knowable_of_known {e : Instant × T} (h : e ∈ (seriesIndex set visibility key).known) :
    Knowable set visibility e.1 e.2 := by
  obtain ⟨hr, hknown⟩ := PointInTimeIndex.mem_known.mp h
  have hvisible : isVisible e.1 visibility e.2 := isVisible_iff.mpr ⟨e.1, hknown, le_refl _⟩
  exact ⟨(List.mem_filter.mp hr).1, hvisible, availableAt_ne_none hvisible⟩

theorem Knowable.mono {asOf' : Instant} (hle : asOf ≤ asOf') (h : Knowable set visibility asOf r) :
    Knowable set visibility asOf' r := by
  obtain ⟨known, hknown, hasOf⟩ := isVisible_iff.mp h.visible
  exact ⟨h.held, isVisible_iff.mpr ⟨known, hknown, hasOf.trans hle⟩, h.available⟩

theorem mem_seriesKeys_of_indexOf {index : PointInTimeIndex T}
    (h : (of set visibility).indexOf key = .ok index) : index = seriesIndex set visibility key := by
  have hlookup : (of set visibility).series.lookup key = some index := orRefuse_ok.mp h
  by_cases hkey : key ∈ (of set visibility).seriesKeys
  · exact Except.ok.inj (h.symm.trans (indexOf_eq hkey))
  · rw [seriesKeys_of] at hkey
    have hnone : (of set visibility).series.lookup key = none :=
      (lookup_map (seriesIndex set visibility) key _).trans (if_neg hkey)
    cases hlookup.symm.trans hnone

theorem knowable_of_visibleInSeries {rows : List T}
    (h : (of set visibility).visibleInSeries key asOf = .ok rows) (hr : r ∈ rows) :
    Knowable set visibility asOf r := by
  obtain ⟨index, hindex, hrows⟩ := bind_ok.mp h
  obtain rfl := mem_seriesKeys_of_indexOf hindex
  obtain rfl := ok_inj.mp hrows
  exact knowable_of_series hr

theorem knowable_of_latestTimeline {policy : VintagePolicy} {timeline : List (Instant × T)}
    (h : (of set visibility).latestTimeline key policy = .ok timeline) :
    ∀ e ∈ timeline, Knowable set visibility e.1 e.2 := by
  obtain ⟨index, hindex, htimeline⟩ := bind_ok.mp h
  obtain rfl := mem_seriesKeys_of_indexOf hindex
  obtain rfl := ok_inj.mp htimeline
  refine sweep_invariant (fun i (best : Option T) => ∀ r ∈ best, Knowable set visibility i r)
    (fun e : Instant × T => Knowable set visibility e.1 e.2) ?_ ?_
    (seriesIndex set visibility key).ordered ?_ (by simp) (by simp)
  · exact fun hij hbest r hr => (hbest r hr).mono hij
  · intro i best out hbest hout e he
    cases best with
    | none => exact hout e he
    | some r =>
      rw [appendChange] at he
      split_ifs at he
      · exact hout e he
      · rcases List.mem_append.mp he with he | he
        · exact hout e he
        · obtain rfl := List.mem_singleton.mp he
          exact hbest r rfl
  · intro e he best hbest r hr
    rw [displace] at hr
    split_ifs at hr
    · exact hbest r hr
    · obtain rfl : e.2 = r := Option.some.inj hr
      exact knowable_of_known he
    · exact hbest r hr

theorem reads_knowable (set : ObservationSet T) (visibility : VisibilityRule) (asOf : Instant) :
    ReadsKnowable set visibility asOf where
  select r hr := knowable_of_visible hr
  visibleInSeries key rows hrows r hr := knowable_of_visibleInSeries hrows hr
  latestInSeries key policy latest hlatest r hr := by
    obtain ⟨rows, hrows, hlast⟩ := bind_ok.mp hlatest
    obtain rfl := ok_inj.mp hlast
    exact knowable_of_visibleInSeries hrows (mem_of_chosen (List.mem_of_getLast? hr))
  latestTimeline key policy timeline h := knowable_of_latestTimeline h
  vintageAsOf key policy r hr := by
    rw [vintageAsOf_eq] at hr
    exact knowable_of_visible (List.mem_filter.mp (mem_of_pickVintage hr)).1

end

end AlphaLab
