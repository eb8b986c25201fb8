/-
  Research never sees the future.

  * `research_never_sees_the_future`: both, of every view.
-/
import AlphaLab.AltData.Fundamentals
import AlphaLab.AltData.Reads

namespace AlphaLab

open Fallible SetRecord ObservationView

/-! ## Keys that nothing is visible under -/

section
variable {α β : Type} {l : List α} {p : α → Bool}

theorem filterMap_filter_of {f : α → Option β} (h : ∀ a ∈ l, p a = false → f a = none) :
    (l.filter p).filterMap f = l.filterMap f := by
  rw [List.filterMap_filter]
  refine List.filterMap_congr fun a ha => ?_
  cases hp : p a with
  | true => rfl
  | false => exact (h a ha hp).symm

theorem flatMap_filter_of {f : α → List β} (h : ∀ a ∈ l, p a = false → f a = []) :
    (l.filter p).flatMap f = l.flatMap f := by
  induction l with
  | nil => rfl
  | cons a l ih =>
    have ih := ih fun b hb => h b (List.mem_cons_of_mem _ hb)
    rw [List.flatMap_cons, List.filter_cons]
    cases hp : p a with
    | true => simp [ih]
    | false => simp [ih, h a List.mem_cons_self hp]

theorem nodup_eraseDups [BEq α] [LawfulBEq α] : ∀ l : List α, l.eraseDups.Nodup
  | [] => List.nodup_nil
  | a :: l => by
    rw [List.eraseDups_cons, List.nodup_cons, List.mem_eraseDups]
    refine ⟨by simp, nodup_eraseDups _⟩
termination_by l => l.length
decreasing_by exact Nat.lt_succ_of_le (List.length_filter_le _ _)

end

section
variable {set set' : ObservationSet FundamentalObservation} {visibility : VisibilityRule}
  {bound asOf : Instant} {subject lineItem : String} {statement : StatementType}
  {policy : VintagePolicy} {key : List String} {item : Option String} {r : FundamentalObservation}

theorem mem_fundamentalKeys : key ∈ fundamentalKeys (of set visibility) subject statement item →
    key ∈ (of set visibility).seriesKeys := fun h => (List.mem_filter.mp h).1

variable {label : String}

theorem vintageAsOf_of_nothing (h : (seriesIndex set visibility key).visibleAsOf asOf = []) :
    (of set visibility).vintageAsOf (key ++ [label]) asOf policy = none := by
  rw [vintageAsOf_eq]
  refine Option.eq_none_iff_forall_ne_some.mpr fun r hpick => ?_
  obtain ⟨hr, hkey⟩ := List.mem_filter.mp (mem_of_pickVintage hpick)
  obtain ⟨hr, hvisible⟩ := (PointInTimeIndex.mem_visibleAsOf (h := set.agree.ids)).mp hr
  have hseries : seriesKey r = key := (List.append_inj' (of_decide_eq_true hkey) rfl).1
  have hmem : r ∈ (seriesIndex set visibility key).visibleAsOf asOf :=
    mem_visible_series.mpr ⟨hr, hseries, hvisible⟩
  rw [h] at hmem
  cases hmem

def visibleKeys (set : ObservationSet FundamentalObservation) (visibility : VisibilityRule)
    (subject : String) (statement : StatementType) (item : Option String) (asOf : Instant) :
    List (List String) :=
  (fundamentalKeys (of set visibility) subject statement item).filter fun key =>
    (seriesIndex set visibility key).visibleAsOf asOf ≠ []

theorem mem_visibleKeys : key ∈ visibleKeys set visibility subject statement item asOf ↔
    (key[2]? = some subject ∧ key[3]? = some statement.name ∧
        ∀ name ∈ item, key[4]? = some name) ∧
      ∃ r ∈ set.records, seriesKey r = key ∧ isVisible asOf visibility r := by
  rw [visibleKeys, fundamentalKeys, List.mem_filter, List.mem_filter, mem_seriesKeys,
    decide_eq_true_eq, decide_eq_true_eq]
  constructor
  · rintro ⟨⟨-, hkey⟩, hne⟩
    obtain ⟨r, hr⟩ := List.exists_mem_of_ne_nil _ hne
    exact ⟨hkey, r, mem_visible_series.mp hr⟩
  · rintro ⟨hkey, r, hr, hseries, hvisible⟩
    exact ⟨⟨⟨r, hr, hseries⟩, hkey⟩,
      List.ne_nil_of_mem (mem_visible_series.mpr ⟨hr, hseries, hvisible⟩)⟩

theorem visibleKeys_eq (h : SameUpTo visibility bound set.records set'.records) (hle : asOf ≤ bound) :
    visibleKeys set visibility subject statement item asOf =
      visibleKeys set' visibility subject statement item asOf := by
  have hsorted : ∀ set : ObservationSet FundamentalObservation,
      (visibleKeys set visibility subject statement item asOf).Pairwise (fun a b => id a ≤ id b) ∧
        (visibleKeys set visibility subject statement item asOf).Nodup := by
    intro set
    rw [visibleKeys, fundamentalKeys, seriesKeys_of]
    exact ⟨((sortBy_sorted id _).filter _).filter _,
      (((sortBy_perm id _).nodup_iff.mpr (nodup_eraseDups _)).filter _).filter _⟩
  have hmem : ∀ key, key ∈ visibleKeys set visibility subject statement item asOf ↔
      key ∈ visibleKeys set' visibility subject statement item asOf := by
    intro key
    rw [mem_visibleKeys, mem_visibleKeys]
    refine and_congr_right fun _ => exists_congr fun r => ?_
    constructor
    · rintro ⟨hr, hseries, hvisible⟩
      exact ⟨(h.mem_visible_iff hle hvisible).mp hr, hseries, hvisible⟩
    · rintro ⟨hr, hseries, hvisible⟩
      exact ⟨(h.mem_visible_iff hle hvisible).mpr hr, hseries, hvisible⟩
  have hperm := (List.perm_ext_iff_of_nodup (hsorted set).2 (hsorted set').2).mpr hmem
  have hkeyed : Keyed id (visibleKeys set visibility subject statement item asOf) := by
    rw [Keyed, List.map_id]
    exact (hsorted set).2
  exact eq_of_sorted hkeyed hperm (hsorted set).1 (hsorted set').1

/-! ## Figures -/

/-- The figures that a view finds for a period, one a series at most. -/
theorem figures_eq (h : SameUpTo visibility bound set.records set'.records) (hle : asOf ≤ bound)
    (label : String) :
    (fundamentalKeys (of set visibility) subject statement item).filterMap
        (fun key => (of set visibility).vintageAsOf (key ++ [label]) asOf policy) =
      (fundamentalKeys (of set' visibility) subject statement item).filterMap
        fun key => (of set' visibility).vintageAsOf (key ++ [label]) asOf policy := by
  have hvisible : ∀ set : ObservationSet FundamentalObservation,
      (visibleKeys set visibility subject statement item asOf).filterMap
          (fun key => (of set visibility).vintageAsOf (key ++ [label]) asOf policy) =
        (fundamentalKeys (of set visibility) subject statement item).filterMap
          fun key => (of set visibility).vintageAsOf (key ++ [label]) asOf policy :=
    fun set => filterMap_filter_of fun key _ hnone => vintageAsOf_of_nothing (by simpa using hnone)
  rw [← hvisible set, ← hvisible set', visibleKeys_eq h hle]
  exact List.filterMap_congr fun key _ => (reads_alike h hle).vintageAsOf _ _

theorem fundamentalAsOf_eq (h : SameUpTo visibility bound set.records set'.records)
    (hle : asOf ≤ bound) (label : String) :
    fundamentalAsOf (of set visibility) subject statement lineItem asOf policy label =
      fundamentalAsOf (of set' visibility) subject statement lineItem asOf policy label := by
  rw [fundamentalAsOf, fundamentalAsOf, ← List.head?_filterMap, ← List.head?_filterMap,
    figures_eq h hle]

theorem chosenFigures_of : chosenFigures (of set visibility) subject statement lineItem asOf policy =
    .ok ((fundamentalKeys (of set visibility) subject statement (some lineItem)).flatMap
      fun key => chosen policy ((seriesIndex set visibility key).visibleAsOf asOf)) := by
  rw [chosenFigures, mapM_ok fun key hkey => visibleInSeries_eq (mem_fundamentalKeys hkey) asOf]
  exact congrArg Except.ok (List.flatMap_map _ _ _)

theorem chosen_nil : chosen policy ([] : List FundamentalObservation) = [] := by cases policy <;> rfl

theorem chosenFigures_eq (h : SameUpTo visibility bound set.records set'.records)
    (hle : asOf ≤ bound) :
    chosenFigures (of set visibility) subject statement lineItem asOf policy =
      chosenFigures (of set' visibility) subject statement lineItem asOf policy := by
  have hvisible : ∀ set : ObservationSet FundamentalObservation,
      (visibleKeys set visibility subject statement (some lineItem) asOf).flatMap
          (fun key => chosen policy ((seriesIndex set visibility key).visibleAsOf asOf)) =
        (fundamentalKeys (of set visibility) subject statement (some lineItem)).flatMap
          fun key => chosen policy ((seriesIndex set visibility key).visibleAsOf asOf) := by
    refine fun set => flatMap_filter_of fun key _ hnone => ?_
    rw [show (seriesIndex set visibility key).visibleAsOf asOf = [] by simpa using hnone, chosen_nil]
  rw [chosenFigures_of, chosenFigures_of, ← hvisible set, ← hvisible set', visibleKeys_eq h hle]
  exact congrArg Except.ok (List.flatMap_congr fun key _ => by rw [h.series hle])

theorem latestFundamental_eq (h : SameUpTo visibility bound set.records set'.records)
    (hle : asOf ≤ bound) (annual : Option Bool) :
    latestFundamental (of set visibility) subject statement lineItem asOf policy annual =
      latestFundamental (of set' visibility) subject statement lineItem asOf policy annual := by
  rw [latestFundamental, latestFundamental, chosenFigures_eq h hle]

theorem trailingTwelveMonths_eq (h : SameUpTo visibility bound set.records set'.records)
    (hle : asOf ≤ bound) :
    trailingTwelveMonths (of set visibility) subject statement lineItem asOf policy =
      trailingTwelveMonths (of set' visibility) subject statement lineItem asOf policy := by
  rw [trailingTwelveMonths, trailingTwelveMonths, chosenFigures_eq h hle]

theorem readInput_eq (h : SameUpTo visibility bound set.records set'.records) (hle : asOf ≤ bound) :
    readInput (of set visibility) subject asOf policy =
      readInput (of set' visibility) subject asOf policy := by
  funext acc spec
  simp only [readInput, trailingTwelveMonths_eq h hle, latestFundamental_eq h hle]

/-! ## Arrivals -/

def arriving (set : ObservationSet FundamentalObservation) (visibility : VisibilityRule)
    (subject : String) (statement : StatementType) (lineItem : String) :
    List (Instant × FundamentalObservation) :=
  (fundamentalKeys (of set visibility) subject statement (some lineItem)).flatMap fun key =>
    (seriesIndex set visibility key).known

theorem arrivals_of : arrivals (of set visibility) subject statement lineItem =
    .ok (sortBy (fun e => toLex (e.1, e.2.recordId))
      (arriving set visibility subject statement lineItem)) := by
  rw [arrivals, mapM_ok fun key hkey => indexOf_eq (mem_fundamentalKeys hkey)]
  exact congrArg (fun l => Except.ok (sortBy _ l)) (List.flatMap_map _ _ _)

theorem mem_arriving {e : Instant × FundamentalObservation} :
    e ∈ arriving set visibility subject statement lineItem ↔
      (e.2 ∈ set.records ∧ (stamp e.2).knownAt visibility = some e.1) ∧
        ((seriesKey e.2)[2]? = some subject ∧ (seriesKey e.2)[3]? = some statement.name ∧
          (seriesKey e.2)[4]? = some lineItem) := by
  rw [arriving, List.mem_flatMap]
  simp only [fundamentalKeys, List.mem_filter, mem_seriesKeys, seriesIndex,
    PointInTimeIndex.mem_known, decide_eq_true_eq, Option.mem_some, forall_eq']
  constructor
  · rintro ⟨key, ⟨-, hkey⟩, ⟨he, rfl⟩, hknown⟩
    exact ⟨⟨he, hknown⟩, hkey⟩
  · rintro ⟨⟨he, hknown⟩, hkey⟩
    exact ⟨seriesKey e.2, ⟨⟨e.2, he, rfl⟩, hkey⟩, ⟨he, rfl⟩, hknown⟩

theorem keyed_arriving : Keyed (fun e => toLex (e.1, e.2.recordId))
    (arriving set visibility subject statement lineItem) := by
  have hnodup : (arriving set visibility subject statement lineItem).Nodup := by
    rw [arriving, List.nodup_flatMap]
    constructor
    · intro key _
      have honce := set.agree.ids.sublist (List.filter_sublist (p := fun r => seriesKey r = key))
      exact ((sortBy_perm knowledge _).nodup_iff).mpr (keyed_knowledge honce).nodup
    · have hkeys : (fundamentalKeys (of set visibility) subject statement (some lineItem)).Nodup := by
        rw [fundamentalKeys, seriesKeys_of]
        exact ((sortBy_perm id _).nodup_iff.mpr (nodup_eraseDups _)).filter _
      refine hkeys.imp fun {key key'} hne e he he' => hne ?_
      obtain ⟨hkey, -⟩ := PointInTimeIndex.mem_known.mp he
      obtain ⟨hkey', -⟩ := PointInTimeIndex.mem_known.mp he'
      rw [List.mem_filter, decide_eq_true_eq] at hkey hkey'
      exact hkey.2.symm.trans hkey'.2
  refine List.Nodup.map_on (fun a ha b hb hab => ?_) hnodup
  have hinstant : a.1 = b.1 := congrArg (fun p => (ofLex p).1) hab
  have hid : recordId a.2 = recordId b.2 := congrArg (fun p => (ofLex p).2) hab
  exact Prod.ext hinstant
    (set.agree.ids.eq (mem_arriving.mp ha).1.1 (mem_arriving.mp hb).1.1 hid)

theorem arriving_eq (h : SameUpTo visibility bound set.records set'.records) (hle : asOf ≤ bound) :
    (sortBy (fun e => toLex (e.1, e.2.recordId))
        (arriving set visibility subject statement lineItem)).filter (fun e => e.1 ≤ asOf) =
      (sortBy (fun e => toLex (e.1, e.2.recordId))
        (arriving set' visibility subject statement lineItem)).filter fun e => e.1 ≤ asOf := by
  rw [filter_sortBy keyed_arriving, filter_sortBy keyed_arriving]
  refine sortBy_eq_of_mem_iff (keyed_arriving.sublist List.filter_sublist)
    (keyed_arriving.sublist List.filter_sublist) fun e => ?_
  simp only [List.mem_filter, mem_arriving, decide_eq_true_eq]
  constructor
  · rintro ⟨⟨⟨he, hknown⟩, hkey⟩, hasOf⟩
    exact ⟨⟨⟨(h e.2 e.1 hknown (hasOf.trans hle)).mp he, hknown⟩, hkey⟩, hasOf⟩
  · rintro ⟨⟨⟨he, hknown⟩, hkey⟩, hasOf⟩
    exact ⟨⟨⟨(h e.2 e.1 hknown (hasOf.trans hle)).mpr he, hknown⟩, hkey⟩, hasOf⟩

theorem arrivals_sorted (set : ObservationSet FundamentalObservation)
    (visibility : VisibilityRule) (subject : String) (spec : FundamentalInput) :
    (sortBy (fun e => toLex (e.1, e.2.recordId))
      (arriving set visibility subject spec.statement spec.lineItem)).Pairwise
        fun a b => a.1 ≤ b.1 :=
  sortBy_lex_sorted Prod.fst (fun e : Instant × FundamentalObservation => e.2.recordId) _

theorem timeline_of (spec : FundamentalInput) :
    aggregateTimeline (of set visibility) subject policy spec =
      .ok (sweep (holdPeriod policy) (appendStep subject spec)
        (sortBy (fun e => toLex (e.1, e.2.recordId))
          (arriving set visibility subject spec.statement spec.lineItem)) .empty []) := by
  have hflow : spec.aggregation = .trailingTwelveMonths →
      requireFlow spec.statement spec.lineItem = .ok () := fun h => require_ok.mpr (spec.flow h)
  rw [aggregateTimeline, arrivals_of]
  split_ifs with h
  · rw [hflow h]
    rfl
  · rfl

structure FundamentalsAlike (set set' : ObservationSet FundamentalObservation)
    (visibility : VisibilityRule) (asOf : Instant) : Prop where
  fundamentalAsOf : ∀ subject statement lineItem policy label,
    fundamentalAsOf (of set visibility) subject statement lineItem asOf policy label =
      fundamentalAsOf (of set' visibility) subject statement lineItem asOf policy label
  latestFundamental : ∀ subject statement lineItem policy annual,
    latestFundamental (of set visibility) subject statement lineItem asOf policy annual =
      latestFundamental (of set' visibility) subject statement lineItem asOf policy annual
  statementAsOf : ∀ subject statement policy label,
    statementAsOf (of set visibility) subject statement asOf policy label =
      statementAsOf (of set' visibility) subject statement asOf policy label
  trailingTwelveMonths : ∀ subject statement lineItem policy,
    trailingTwelveMonths (of set visibility) subject statement lineItem asOf policy =
      trailingTwelveMonths (of set' visibility) subject statement lineItem asOf policy
  yearOverYearGrowth : ∀ subject statement lineItem policy annual,
    yearOverYearGrowth (of set visibility) subject statement lineItem asOf policy annual =
      yearOverYearGrowth (of set' visibility) subject statement lineItem asOf policy annual
  fundamentalInputsAsOf : ∀ subject policy inputs,
    fundamentalInputsAsOf (of set visibility) subject asOf policy inputs =
      fundamentalInputsAsOf (of set' visibility) subject asOf policy inputs
  aggregateTimeline : ∀ subject policy spec,
    (aggregateTimeline (of set visibility) subject policy spec).map
        (fun steps => steps.filter fun step => step.knownAt ≤ asOf) =
      (aggregateTimeline (of set' visibility) subject policy spec).map
        fun steps => steps.filter fun step => step.knownAt ≤ asOf

theorem knownAt_aggregateStep (spec : FundamentalInput) (instant : Instant)
    (chosen : List FundamentalObservation) :
    (aggregateStep subject spec instant chosen).knownAt = instant := by
  unfold aggregateStep
  split
  · dsimp only
    split <;> rfl
  · split <;> rfl

theorem emitsAt_appendStep (spec : FundamentalInput) :
    EmitsAt AggregateStep.knownAt (appendStep subject spec) := by
  intro instant perPeriod steps
  dsimp only [appendStep]
  split_ifs
  · exact Or.inl rfl
  · exact Or.inr ⟨_, knownAt_aggregateStep spec instant _, rfl⟩

/-- **What is read of fundamentals is alike** where sets agree on what is known. -/
theorem fundamentals_alike (h : SameUpTo visibility bound set.records set'.records)
    (hle : asOf ≤ bound) : FundamentalsAlike set set' visibility asOf where
  fundamentalAsOf _ _ _ _ label := fundamentalAsOf_eq h hle label
  latestFundamental _ _ _ _ annual := latestFundamental_eq h hle annual
  statementAsOf _ _ _ label := by
    simp only [statementAsOf, statementItems, figures_eq h hle label]
  trailingTwelveMonths _ _ _ _ := trailingTwelveMonths_eq h hle
  yearOverYearGrowth _ _ _ _ annual := by
    simp only [yearOverYearGrowth, latestFundamental_eq h hle, fundamentalAsOf_eq h hle]
  fundamentalInputsAsOf _ _ inputs := by
    simp only [fundamentalInputsAsOf, readInput_eq h hle]
    rfl
  aggregateTimeline subject policy spec := by
    rw [timeline_of, timeline_of]
    refine congrArg Except.ok ?_
    beta_reduce
    rw [filter_sweep (emitsAt_appendStep spec) (arrivals_sorted set visibility subject spec),
      filter_sweep (emitsAt_appendStep spec) (arrivals_sorted set' visibility subject spec),
      arriving_eq h hle]

/-! ## Knowable -/

def Behind (set : ObservationSet FundamentalObservation) (visibility : VisibilityRule)
    (asOf : Instant) (id : String) : Prop :=
  ∃ r, Knowable set visibility asOf r ∧ r.recordId = id

structure FundamentalsKnowable (set : ObservationSet FundamentalObservation)
    (visibility : VisibilityRule) (asOf : Instant) : Prop where
  fundamentalAsOf : ∀ subject statement lineItem policy label,
    ∀ r ∈ fundamentalAsOf (of set visibility) subject statement lineItem asOf policy label,
      Knowable set visibility asOf r
  latestFundamental : ∀ subject statement lineItem policy annual latest,
    latestFundamental (of set visibility) subject statement lineItem asOf policy annual =
        .ok latest →
      ∀ r ∈ latest, Knowable set visibility asOf r
  statementAsOf : ∀ subject statement policy label found,
    statementAsOf (of set visibility) subject statement asOf policy label = .ok (some found) →
      ∀ r ∈ found.items.values, Knowable set visibility asOf r
  trailingTwelveMonths : ∀ subject statement lineItem policy twelve,
    trailingTwelveMonths (of set visibility) subject statement lineItem asOf policy = .ok twelve →
      (∀ label ∈ twelve.periods,
        ∃ r, Knowable set visibility asOf r ∧ r.fiscalPeriod.label = label) ∧
      ∀ v, twelve.value = .ok v → ∀ id ∈ v.2.2, Behind set visibility asOf id
  yearOverYearGrowth : ∀ subject statement lineItem policy annual growth,
    yearOverYearGrowth (of set visibility) subject statement lineItem asOf policy annual =
        .ok growth →
      (∀ r ∈ growth.current, Knowable set visibility asOf r) ∧
        ∀ r ∈ growth.prior, Knowable set visibility asOf r
  fundamentalInputsAsOf : ∀ subject policy inputs found,
    fundamentalInputsAsOf (of set visibility) subject asOf policy inputs = .ok found →
      ∀ ids ∈ found.recordIds.values, ∀ id ∈ ids, Behind set visibility asOf id
  aggregateTimeline : ∀ subject policy spec steps,
    aggregateTimeline (of set visibility) subject policy spec = .ok steps →
      ∀ step ∈ steps, ∀ id ∈ step.recordIds, Behind set visibility step.knownAt id

theorem knowable_of_fundamentalAsOf
    (h : fundamentalAsOf (of set visibility) subject statement lineItem asOf policy label = some r)
    : Knowable set visibility asOf r := by
  obtain ⟨key, -, hr⟩ := List.exists_of_findSome?_eq_some h
  exact (reads_knowable set visibility asOf).vintageAsOf _ _ r hr

theorem knowable_of_chosenFigures {figures : List FundamentalObservation}
    (h : chosenFigures (of set visibility) subject statement lineItem asOf policy = .ok figures)
    (hr : r ∈ figures) : Knowable set visibility asOf r := by
  rw [chosenFigures_of, ok_inj] at h
  subst h
  obtain ⟨key, -, hkey⟩ := List.mem_flatMap.mp hr
  exact knowable_of_series (mem_of_chosen hkey)

theorem mem_of_latestPeriod {annual : Option Bool} {l : List FundamentalObservation}
    (h : latestPeriod annual l = some r) : r ∈ l := (List.mem_filter.mp (mem_of_maxBy h)).1

theorem knowable_of_latestFundamental {annual : Option Bool} {latest : Option FundamentalObservation}
    (h : latestFundamental (of set visibility) subject statement lineItem asOf policy annual =
      .ok latest) (hr : latest = some r) : Knowable set visibility asOf r := by
  obtain ⟨figures, hfigures, hlatest⟩ := bind_ok.mp h
  exact knowable_of_chosenFigures hfigures (mem_of_latestPeriod ((ok_inj.mp hlatest).trans hr))

theorem mem_of_latestQuarters {l : List FundamentalObservation} (h : r ∈ latestQuarters l) : r ∈ l :=
  (List.mem_filter.mp (mem_sortBy.mp (List.mem_of_mem_drop h))).1

theorem sumQuarters_ids {l : List FundamentalObservation} {v : Decimal × String × List String}
    (h : sumQuarters l = .ok v) : v.2.2 = l.map (·.recordId) := by
  unfold sumQuarters at h
  dsimp only at h
  split_ifs at h
  split at h
  · obtain rfl := ok_inj.mp h
    rfl
  · cases h

theorem mem_of_trailing {l : List FundamentalObservation} :
    (∀ label ∈ (trailing subject lineItem asOf l).periods,
        ∃ r ∈ l, r.fiscalPeriod.label = label) ∧
      ∀ v, (trailing subject lineItem asOf l).value = .ok v →
        ∀ id ∈ v.2.2, ∃ r ∈ l, r.recordId = id := by
  constructor
  · intro label hlabel
    obtain ⟨r, hr, rfl⟩ := List.mem_map.mp hlabel
    exact ⟨r, mem_of_latestQuarters hr, rfl⟩
  · intro v hv id hid
    rw [sumQuarters_ids hv] at hid
    obtain ⟨r, hr, rfl⟩ := List.mem_map.mp hid
    exact ⟨r, mem_of_latestQuarters hr, rfl⟩

theorem knowable_of_trailing {twelve : TrailingValue}
    (h : trailingTwelveMonths (of set visibility) subject statement lineItem asOf policy =
      .ok twelve) :
    (∀ label ∈ twelve.periods,
        ∃ r, Knowable set visibility asOf r ∧ r.fiscalPeriod.label = label) ∧
      ∀ v, twelve.value = .ok v → ∀ id ∈ v.2.2, Behind set visibility asOf id := by
  obtain ⟨-, -, h⟩ := bind_ok.mp h
  obtain ⟨figures, hfigures, htwelve⟩ := bind_ok.mp h
  obtain rfl := ok_inj.mp htwelve
  have hfigures := mapError_ok.mp hfigures
  constructor
  · intro label hlabel
    obtain ⟨r, hr, hlabel⟩ := mem_of_trailing.1 label hlabel
    exact ⟨r, knowable_of_chosenFigures hfigures hr, hlabel⟩
  · intro v hv id hid
    obtain ⟨r, hr, hid⟩ := mem_of_trailing.2 v hv id hid
    exact ⟨r, knowable_of_chosenFigures hfigures hr, hid⟩

theorem knowable_of_statementItems
    (hr : r ∈ (statementItems (of set visibility) subject statement asOf policy label).values) :
    Knowable set visibility asOf r := by
  have hfold : ∀ {l : List FundamentalObservation} {items : Dict String FundamentalObservation},
      r ∈ (l.foldl (fun items found => items.set found.lineItem found) items).values →
        r ∈ items.values ∨ r ∈ l := by
    intro l
    induction l with
    | nil => exact Or.inl
    | cons a l ih =>
      intro items h
      rcases ih h with hset | hl
      · rcases Dict.mem_values_of_set hset with rfl | hitems
        · exact Or.inr List.mem_cons_self
        · exact Or.inl hitems
      · exact Or.inr (List.mem_cons_of_mem _ hl)
  rcases hfold hr with hnone | hl
  · cases hnone
  · obtain ⟨key, -, hkey⟩ := List.mem_filterMap.mp hl
    exact (reads_knowable set visibility asOf).vintageAsOf _ _ r hkey

theorem knowable_of_statementAsOf {found : FinancialStatement}
    (h : statementAsOf (of set visibility) subject statement asOf policy label = .ok (some found))
    (hr : r ∈ found.items.values) : Knowable set visibility asOf r := by
  unfold statementAsOf at h
  dsimp only at h
  split at h
  · cases ok_inj.mp h
  · obtain rfl := Option.some.inj (ok_inj.mp h)
    obtain ⟨name, hname⟩ := Dict.mem_values.mp hr
    rw [Dict.get?_sorted] at hname
    exact knowable_of_statementItems (Dict.mem_values.mpr ⟨name, hname⟩)
  · cases h

theorem knowable_of_growth {annual : Bool} {growth : GrowthValue}
    (h : yearOverYearGrowth (of set visibility) subject statement lineItem asOf policy annual =
      .ok growth) :
    (∀ r ∈ growth.current, Knowable set visibility asOf r) ∧
      ∀ r ∈ growth.prior, Knowable set visibility asOf r := by
  obtain ⟨latest, hlatest, h⟩ := bind_ok.mp h
  have hcurrent := fun r => knowable_of_latestFundamental (r := r) hlatest
  cases latest with
  | none =>
    obtain rfl := ok_inj.mp h
    exact ⟨by simp, by simp⟩
  | some current =>
    dsimp only at h
    split at h
    · obtain rfl := ok_inj.mp h
      exact ⟨hcurrent, by simp⟩
    · rename_i prior hprior
      obtain rfl := ok_inj.mp h
      refine ⟨hcurrent, fun r hr => ?_⟩
      obtain rfl := Option.some.inj hr
      exact knowable_of_fundamentalAsOf hprior

def InputsKnowable (set : ObservationSet FundamentalObservation) (visibility : VisibilityRule)
    (asOf : Instant) (acc : FundamentalInputs) : Prop :=
  ∀ ids ∈ acc.recordIds.values, ∀ id ∈ ids, Behind set visibility asOf id

theorem InputsKnowable.define {acc : FundamentalInputs} (hacc : InputsKnowable set visibility asOf acc)
    {ids : List String} (hids : ∀ id ∈ ids, Behind set visibility asOf id) (name : String)
    (value : Decimal) (unit : String) (observed : Option Instant) :
    InputsKnowable set visibility asOf (acc.define name value unit ids observed) := by
  intro ids' hids'
  rcases Dict.mem_values_of_set hids' with rfl | hmem
  · exact hids
  · exact hacc ids' hmem

variable {spec : FundamentalInput}

theorem InputsKnowable.readInput {acc next : FundamentalInputs}
    (hacc : InputsKnowable set visibility asOf acc)
    (h : readInput (of set visibility) subject asOf policy acc spec = .ok next) :
    InputsKnowable set visibility asOf next := by
  unfold AlphaLab.readInput at h
  dsimp only at h
  split at h
  · obtain ⟨twelve, htwelve, h⟩ := bind_ok.mp h
    split at h
    · obtain rfl := ok_inj.mp h
      exact hacc
    · rename_i value unit ids hvalue
      obtain ⟨last, -, h⟩ := bind_ok.mp h
      obtain rfl := ok_inj.mp h
      exact hacc.define ((knowable_of_trailing htwelve).2 _ hvalue) _ _ _ _
  · obtain ⟨latest, hlatest, h⟩ := bind_ok.mp h
    split at h
    · obtain rfl := ok_inj.mp h
      exact hacc
    · rename_i r
      obtain rfl := ok_inj.mp h
      refine hacc.define (fun id hid => ?_) _ _ _ _
      obtain rfl := List.mem_singleton.mp hid
      exact ⟨r, knowable_of_latestFundamental (mapError_ok.mp hlatest) rfl, rfl⟩

theorem knowable_of_inputs {inputs : List FundamentalInput} {found : FundamentalInputs}
    (h : fundamentalInputsAsOf (of set visibility) subject asOf policy inputs = .ok found) :
    InputsKnowable set visibility asOf found := by
  obtain ⟨-, -, h⟩ := bind_ok.mp h
  obtain ⟨-, -, h⟩ := bind_ok.mp h
  exact foldlM_invariant (InputsKnowable set visibility asOf) h (fun ids hids => nomatch hids)
    fun spec _ acc next hnext hacc => hacc.readInput hnext

theorem mem_of_aggregateStep {instant : Instant} {l : List FundamentalObservation} {id : String}
    (h : id ∈ (aggregateStep subject spec instant l).recordIds) : ∃ r ∈ l, r.recordId = id := by
  unfold aggregateStep at h
  split at h
  · dsimp only at h
    split at h
    · cases h
    · rename_i hvalue
      exact mem_of_trailing.2 _ hvalue id h
  · split at h
    · cases h
    · rename_i r hlatest
      exact ⟨r, mem_of_latestPeriod hlatest, (List.mem_singleton.mp h).symm⟩

theorem knowable_of_aggregateTimeline {steps : List AggregateStep}
    (h : aggregateTimeline (of set visibility) subject policy spec = .ok steps) :
    ∀ step ∈ steps, ∀ id ∈ step.recordIds, Behind set visibility step.knownAt id := by
  rw [timeline_of, ok_inj] at h
  subst h
  refine sweep_invariant
    (fun i (held : Dict String FundamentalObservation) =>
      ∀ r ∈ held.values, Knowable set visibility i r)
    (fun step : AggregateStep => ∀ id ∈ step.recordIds, Behind set visibility step.knownAt id)
    (fun hij hheld r hr => (hheld r hr).mono hij) ?_ (arrivals_sorted set visibility subject spec) ?_
    (fun _ _ r hr => nomatch hr) (by simp)
  · intro i held out hheld hout step hstep
    dsimp only [appendStep] at hstep
    split_ifs at hstep
    · exact hout step hstep
    · rcases List.mem_append.mp hstep with hstep | hstep
      · exact hout step hstep
      · obtain rfl := List.mem_singleton.mp hstep
        intro id hid
        obtain ⟨r, hr, hid⟩ := mem_of_aggregateStep hid
        rw [knownAt_aggregateStep]
        exact ⟨r, hheld r hr, hid⟩
  · intro e he held hheld r hr
    have hknown := (mem_arriving.mp (mem_sortBy.mp he)).1
    have hvisible : isVisible e.1 visibility e.2 := isVisible_iff.mpr ⟨e.1, hknown.2, le_refl _⟩
    have hset : r ∈ (held.set e.2.fiscalPeriod.label e.2).values →
        Knowable set visibility e.1 r := by
      intro hr
      rcases Dict.mem_values_of_set hr with rfl | hr
      · exact ⟨hknown.1, hvisible, availableAt_ne_none hvisible⟩
      · exact hheld r hr
    unfold holdPeriod at hr
    split_ifs at hr
    · exact hheld r hr
    · split at hr
      · exact hset hr
      · split_ifs at hr
        · exact hset hr
        · exact hheld r hr

/-- **Every record behind what is read of fundamentals is knowable.** -/
theorem fundamentals_knowable (set : ObservationSet FundamentalObservation)
    (visibility : VisibilityRule) (asOf : Instant) : FundamentalsKnowable set visibility asOf where
  fundamentalAsOf _ _ _ _ _ _ hr := knowable_of_fundamentalAsOf hr
  latestFundamental _ _ _ _ _ _ hlatest _ hr := knowable_of_latestFundamental hlatest hr
  statementAsOf _ _ _ _ _ hfound _ hr := knowable_of_statementAsOf hfound hr
  trailingTwelveMonths _ _ _ _ _ htwelve := knowable_of_trailing htwelve
  yearOverYearGrowth _ _ _ _ _ _ hgrowth := knowable_of_growth hgrowth
  fundamentalInputsAsOf _ _ _ _ hfound := knowable_of_inputs hfound
  aggregateTimeline _ _ _ _ hsteps := knowable_of_aggregateTimeline hsteps

end

/-- **Research never sees the future.**  Where two sets agree on the records known at or before
    `bound`, their views answer alike at every instant up to it, and every record behind an
    answer is knowable at the instant it is read at. -/
theorem research_never_sees_the_future :
    (∀ (T : Type) [SetRecord T] (set set' : ObservationSet T) (visibility : VisibilityRule)
      (bound asOf : Instant), SameUpTo visibility bound set.records set'.records → asOf ≤ bound →
        ReadsAlike set set' visibility asOf ∧ ReadsKnowable set visibility asOf) ∧
    ∀ (set set' : ObservationSet FundamentalObservation) (visibility : VisibilityRule)
      (bound asOf : Instant), SameUpTo visibility bound set.records set'.records → asOf ≤ bound →
        FundamentalsAlike set set' visibility asOf ∧
          FundamentalsKnowable set visibility asOf := by
  constructor
  · intro T _ set set' visibility bound asOf h hle
    exact ⟨reads_alike h hle, reads_knowable set visibility asOf⟩
  · intro set set' visibility bound asOf h hle
    exact ⟨fundamentals_alike h hle, fundamentals_knowable set visibility asOf⟩

/-- A figure alone, and with a restatement that becomes available later. -/
def revenueSet (records : List FundamentalObservation)
    (h : checkSet "alphalab.fundamental.v1" ⟨"filings", none, none, none⟩ records = .ok ()) :
    ObservationSet FundamentalObservation where
  name := filingsName
  kind := "alphalab.fundamental.v1"
  source := ⟨"filings", none, none, none⟩
  records := records
  parentVersion := none
  transformations := []
  checked := h

theorem restatement_not_seen_early :
    FundamentalsAlike
      (revenueSet [revenueRestated 0 (some 10) "a"] (by decide +kernel))
      (revenueSet [revenueRestated 0 (some 10) "a",
        revenueRestated 1 (some 20) "b"] (by decide +kernel))
      .publication 12 := by
  exact (research_never_sees_the_future.2 _ _ _ 15 12 (sameUpTo_iff.mpr (by decide +kernel))
    (by decide +kernel)).1

end AlphaLab
