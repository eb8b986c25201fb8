/-
  The timeline of an aggregated input against the reads it stands for
  (`alt_data/fundamentals.py`: `aggregate_timeline`, `fundamental_inputs_as_of`).

  * the timeline holds one record a period, `figuresAt` recomputes them from what is visible:
    they have the same members (`mem_held`, `mem_figuresAt`), so what is aggregated of them is
    the same (`aggregateStep_held`);
  * `aggregate_answers_iff`: the last step answers as the point read does exactly where the
    latest quarter to end does not change while the quarters that are summed stay.
-/
import AlphaLab.AltData.NoLookAhead
import AlphaLab.AltData.Timelines

namespace AlphaLab

open Fallible SetRecord ObservationView

section
variable {set : ObservationSet FundamentalObservation} {visibility : VisibilityRule}
  {subject lineItem : String} {statement : StatementType} {policy : VintagePolicy}
  {asOf : Instant} {r a b : FundamentalObservation}

/-! ## The figures of a line item -/

structure InPlay (set : ObservationSet FundamentalObservation) (visibility : VisibilityRule)
    (subject : String) (statement : StatementType) (lineItem : String) (asOf : Instant)
    (r : FundamentalObservation) : Prop where
  held : r ∈ set.records
  visible : isVisible asOf visibility r
  about : (seriesKey r)[2]? = some subject ∧ (seriesKey r)[3]? = some statement.name ∧
    (seriesKey r)[4]? = some lineItem

def figuresAt (set : ObservationSet FundamentalObservation) (visibility : VisibilityRule)
    (subject : String) (statement : StatementType) (lineItem : String) (policy : VintagePolicy)
    (asOf : Instant) : List FundamentalObservation :=
  (fundamentalKeys (of set visibility) subject statement (some lineItem)).flatMap fun key =>
    chosen policy ((seriesIndex set visibility key).visibleAsOf asOf)

variable {key : List String}

theorem mem_keys_about :
    key ∈ fundamentalKeys (of set visibility) subject statement (some lineItem) ↔
      (∃ r ∈ set.records, seriesKey r = key) ∧
        (key[2]? = some subject ∧ key[3]? = some statement.name ∧ key[4]? = some lineItem) := by
  simp only [fundamentalKeys, List.mem_filter, mem_seriesKeys, decide_eq_true_eq,
    Option.mem_some, forall_eq']

theorem InPlay.seriesKey_eq (ha : InPlay set visibility subject statement lineItem asOf a)
    {asOf' : Instant} (hb : InPlay set visibility subject statement lineItem asOf' b) :
    seriesKey a = seriesKey b := by
  have hsource : a.source = b.source :=
    (set.agree.sources a ha.held).trans (set.agree.sources b hb.held).symm
  obtain ⟨ha2, ha3, ha4⟩ := ha.about
  obtain ⟨hb2, hb3, hb4⟩ := hb.about
  have hkey : ∀ r : FundamentalObservation, seriesKey r =
      [r.source.sourceId, reprVersion r.source.version, r.subject, r.statement.name,
        r.lineItem] := fun _ => rfl
  rw [hkey] at ha2 ha3 ha4 hb2 hb3 hb4
  simp only [List.getElem?_cons_succ, List.getElem?_cons_zero, Option.some.injEq] at *
  rw [hkey, hkey, hsource, ha2, ha3, ha4, hb2, hb3, hb4]

theorem vintageKey_of (r : FundamentalObservation) :
    vintageKey r = seriesKey r ++ [r.fiscalPeriod.label] := rfl

theorem InPlay.vintageKey_eq_iff
    (ha : InPlay set visibility subject statement lineItem asOf a)
    (hb : InPlay set visibility subject statement lineItem asOf b) :
    vintageKey a = vintageKey b ↔ a.fiscalPeriod.label = b.fiscalPeriod.label := by
  rw [vintageKey_of, vintageKey_of, ha.seriesKey_eq hb]
  simp

structure FigureRead (set : ObservationSet FundamentalObservation) (visibility : VisibilityRule)
    (subject : String) (statement : StatementType) (lineItem : String) (policy : VintagePolicy)
    (asOf : Instant) (r : FundamentalObservation) : Prop where
  inPlay : InPlay set visibility subject statement lineItem asOf r
  eligible : eligible policy r = true
  highest : ∀ b, InPlay set visibility subject statement lineItem asOf b →
    AlphaLab.eligible policy b = true → b.fiscalPeriod.label = r.fiscalPeriod.label →
      revision b ≤ revision r

theorem visible_claims :
    ∀ a ∈ (seriesIndex set visibility key).visibleAsOf asOf,
      ∀ b ∈ (seriesIndex set visibility key).visibleAsOf asOf, SameClaim a b → a = b := by
  intro a ha b hb
  exact eq_of_sameClaim (mem_visible_series.mp ha).1 (mem_visible_series.mp hb).1

theorem mem_chosen_series :
    r ∈ chosen policy ((seriesIndex set visibility key).visibleAsOf asOf) ↔
      r ∈ (seriesIndex set visibility key).visibleAsOf asOf ∧ eligible policy r = true ∧
        ∀ b ∈ (seriesIndex set visibility key).visibleAsOf asOf, eligible policy b = true →
          vintageKey b = vintageKey r → revision b ≤ revision r := by
  cases policy with
  | asKnown =>
    rw [chosen, mem_latestVintages visible_claims]
    simp [eligible]
  | original =>
    rw [chosen, originalVintages, mem_sortBy, List.mem_filter]
    have hzero : ∀ b : FundamentalObservation, eligible .original b = true ↔ revision b = 0 := by
      intro b
      simp [eligible]
    simp only [hzero, decide_eq_true_eq]
    constructor
    · rintro ⟨hr, hrevision⟩
      refine ⟨hr, hrevision, ?_⟩
      intro b _ hb _
      rw [hb, hrevision]
    · rintro ⟨hr, hrevision, -⟩
      exact ⟨hr, hrevision⟩

theorem mem_figuresAt :
    r ∈ figuresAt set visibility subject statement lineItem policy asOf ↔
      FigureRead set visibility subject statement lineItem policy asOf r := by
  simp only [figuresAt, List.mem_flatMap, mem_keys_about, mem_chosen_series, mem_visible_series]
  constructor
  · rintro ⟨key, ⟨-, habout⟩, ⟨hr, rfl, hvisible⟩, heligible, hmost⟩
    have hplay : InPlay set visibility subject statement lineItem asOf r :=
      ⟨hr, hvisible, habout⟩
    refine ⟨hplay, heligible, ?_⟩
    intro b hb hbe hlabel
    exact hmost b ⟨hb.held, hb.seriesKey_eq hplay, hb.visible⟩ hbe
      ((hb.vintageKey_eq_iff hplay).mpr hlabel)
  · rintro ⟨hplay, heligible, hmost⟩
    refine ⟨seriesKey r, ⟨⟨r, hplay.held, rfl⟩, hplay.about⟩, ⟨hplay.held, rfl, hplay.visible⟩,
      heligible, ?_⟩
    rintro b ⟨hb, hkey, hvisible⟩ hbe hfigure
    have hbplay : InPlay set visibility subject statement lineItem asOf b :=
      ⟨hb, hvisible, by rw [hkey]; exact hplay.about⟩
    exact hmost b hbplay hbe ((hbplay.vintageKey_eq_iff hplay).mp hfigure)

def KeyedByPeriod (l : List FundamentalObservation) : Prop :=
  Keyed (fun r : FundamentalObservation => r.fiscalPeriod.label) l

theorem visible_nodup : ((seriesIndex set visibility key).visibleAsOf asOf).Nodup := by
  have honce := set.agree.ids.sublist (List.filter_sublist (p := fun r => seriesKey r = key))
  have hknown : (seriesIndex set visibility key).known.Nodup :=
    (sortBy_perm knowledge _).nodup_iff.mpr (keyed_knowledge honce).nodup
  rw [PointInTimeIndex.visibleAsOf_eq]
  refine List.Nodup.map_on ?_ (hknown.filter _)
  intro a ha b hb hab
  have hka := (PointInTimeIndex.mem_known.mp (List.mem_filter.mp ha).1).2
  have hkb := (PointInTimeIndex.mem_known.mp (List.mem_filter.mp hb).1).2
  rw [hab, hkb] at hka
  exact Prod.ext (Option.some.inj hka).symm hab

theorem chosen_nodup :
    (chosen policy ((seriesIndex set visibility key).visibleAsOf asOf)).Nodup := by
  cases policy with
  | original => exact (sortBy_perm ordering _).nodup_iff.mpr (visible_nodup.filter _)
  | asKnown =>
    refine (sortBy_perm ordering _).nodup_iff.mpr ?_
    rw [foldl_takeVintage]
    exact Keyed.nodup Newest.nodup_keys_newest

theorem keyed_figuresAt :
    KeyedByPeriod (figuresAt set visibility subject statement lineItem policy asOf) := by
  have hnodup : (figuresAt set visibility subject statement lineItem policy asOf).Nodup := by
    rw [figuresAt, List.nodup_flatMap]
    refine ⟨fun key _ => chosen_nodup, ?_⟩
    have hkeys : (fundamentalKeys (of set visibility) subject statement (some lineItem)).Nodup := by
      rw [fundamentalKeys, seriesKeys_of]
      exact ((sortBy_perm id _).nodup_iff.mpr (nodup_eraseDups _)).filter _
    refine hkeys.imp fun {key key'} hne a ha hb => hne ?_
    have hka := (mem_visible_series.mp (mem_of_chosen ha)).2.1
    have hkb := (mem_visible_series.mp (mem_of_chosen hb)).2.1
    exact hka.symm.trans hkb
  refine List.Nodup.map_on ?_ hnodup
  intro a ha b hb hlabel
  obtain ⟨haPlay, hae, hamost⟩ := mem_figuresAt.mp ha
  obtain ⟨hbPlay, hbe, hbmost⟩ := mem_figuresAt.mp hb
  refine eq_of_sameClaim haPlay.held hbPlay.held ⟨?_, ?_⟩
  · exact (haPlay.vintageKey_eq_iff hbPlay).mpr hlabel
  · exact le_antisymm (hbmost a haPlay hae hlabel) (hamost b hbPlay hbe hlabel.symm)

/-! ## What the timeline holds -/

def arrivingInOrder (set : ObservationSet FundamentalObservation) (visibility : VisibilityRule)
    (subject : String) (statement : StatementType) (lineItem : String) :
    List (Instant × FundamentalObservation) :=
  sortBy (fun e => toLex (e.1, e.2.recordId)) (arriving set visibility subject statement lineItem)

def heldAt (set : ObservationSet FundamentalObservation) (visibility : VisibilityRule)
    (subject : String) (statement : StatementType) (lineItem : String) (policy : VintagePolicy)
    (asOf : Instant) : Dict String FundamentalObservation :=
  stateAt (holdPeriod policy) (arrivingInOrder set visibility subject statement lineItem)
    Dict.empty asOf

theorem mem_arrivals :
    r ∈ ((arrivingInOrder set visibility subject statement lineItem).filter
        fun e => e.1 ≤ asOf).map Prod.snd ↔
      InPlay set visibility subject statement lineItem asOf r := by
  simp only [List.mem_map, List.mem_filter, arrivingInOrder, mem_sortBy, mem_arriving,
    decide_eq_true_eq]
  constructor
  · rintro ⟨e, ⟨⟨⟨he, hknown⟩, habout⟩, hle⟩, rfl⟩
    exact ⟨he, isVisible_iff.mpr ⟨e.1, hknown, hle⟩, habout⟩
  · rintro ⟨hr, hvisible, habout⟩
    obtain ⟨known, hknown, hle⟩ := isVisible_iff.mp hvisible
    exact ⟨(known, r), ⟨⟨⟨hr, hknown⟩, habout⟩, hle⟩, rfl⟩

/-- A record arriving takes its period's place if it is read and newer than what is held. -/
theorem holdPeriod_eq (perPeriod : Dict String FundamentalObservation)
    (hheld : policy = .original → ∀ k x, perPeriod.get? k = some x → x.revision = 0) :
    holdPeriod policy perPeriod r =
      if eligible policy r = true then
        Newest.keepNewest (fun r => r.fiscalPeriod.label) (fun r => r.revision) perPeriod r
      else perPeriod := by
  unfold holdPeriod Newest.keepNewest
  cases policy with
  | asKnown =>
    cases hget : perPeriod.get? r.fiscalPeriod.label with
    | none => simp [eligible]
    | some held => simp [eligible]
  | original =>
    by_cases hr : r.revision = 0
    · have heligible : eligible .original r = true := by
        simpa [eligible, revision] using hr
      cases hget : perPeriod.get? r.fiscalPeriod.label with
      | none => simp [heligible, hr]
      | some held => simp [heligible, hr, hheld rfl _ _ hget]
    · have heligible : ¬ eligible .original r = true := by
        simpa [eligible, revision] using hr
      simp [heligible, hr]

theorem heldAt_eq :
    heldAt set visibility subject statement lineItem policy asOf =
      Newest.newest (fun r => r.fiscalPeriod.label) (fun r => r.revision) Dict.empty
        ((((arrivingInOrder set visibility subject statement lineItem).filter
          fun e => e.1 ≤ asOf).map Prod.snd).filter (eligible policy)) := by
  have hfold : ∀ (l : List FundamentalObservation) (d : Dict String FundamentalObservation),
      (policy = .original → ∀ k x, d.get? k = some x → x.revision = 0) →
      l.foldl (holdPeriod policy) d =
        Newest.newest (fun r => r.fiscalPeriod.label) (fun r => r.revision) d
          (l.filter (eligible policy)) := by
    intro l
    induction l with
    | nil => exact fun d _ => rfl
    | cons r l ih =>
      intro d hheld
      rw [List.foldl_cons, holdPeriod_eq d hheld]
      by_cases hr : eligible policy r = true
      · rw [if_pos hr, List.filter_cons_of_pos hr, ih]
        · rfl
        · -- a record that is read as an original is one
          rintro rfl k x hx
          have hrevision : r.revision = 0 := by simpa [eligible, revision] using hr
          rcases Newest.get?_keepNewest (fun r : FundamentalObservation => r.fiscalPeriod.label)
              (fun r => r.revision) d r k with ⟨-, hget⟩ | ⟨-, -, hget⟩ | ⟨-, h, hget, -, hkept⟩
          · exact hheld rfl k x (hget.symm.trans hx)
          · rw [← Option.some.inj (hget.symm.trans hx)]
            exact hrevision
          · rw [← Option.some.inj (hkept.symm.trans hx)]
            exact hheld rfl k h hget
      · rw [if_neg hr, List.filter_cons_of_neg hr, ih d hheld]
  rw [heldAt, stateAt, ← hfold _ _ (by simp), List.foldl_map]

/-- **The timeline holds the figures that are recomputed.** -/
theorem mem_held :
    r ∈ (heldAt set visibility subject statement lineItem policy asOf).values ↔
      r ∈ figuresAt set visibility subject statement lineItem policy asOf := by
  rw [heldAt_eq, Newest.mem_values_newest, mem_figuresAt]
  · simp only [List.mem_filter, mem_arrivals]
    constructor
    · rintro ⟨⟨hplay, heligible⟩, hmost⟩
      refine ⟨hplay, heligible, ?_⟩
      intro b hb hbe hlabel
      exact Int.ofNat_le.mpr (hmost b ⟨hb, hbe⟩ hlabel)
    · rintro ⟨hplay, heligible, hmost⟩
      refine ⟨⟨hplay, heligible⟩, ?_⟩
      rintro b ⟨hb, hbe⟩ hlabel
      exact Int.ofNat_le.mp (hmost b hb hbe hlabel)
  · intro a ha b hb hlabel hrevision
    have haPlay := mem_arrivals.mp (List.mem_filter.mp ha).1
    have hbPlay := mem_arrivals.mp (List.mem_filter.mp hb).1
    refine eq_of_sameClaim haPlay.held hbPlay.held ⟨?_, ?_⟩
    · exact (haPlay.vintageKey_eq_iff hbPlay).mpr hlabel
    · exact congrArg Int.ofNat hrevision

theorem keyed_held :
    KeyedByPeriod (heldAt set visibility subject statement lineItem policy asOf).values := by
  rw [heldAt_eq]
  exact Newest.nodup_keys_newest

/-! ## What is aggregated of them -/

theorem label_eq_of_ordinal {p q : FiscalPeriod} (hp : p.isAnnual = false)
    (hq : q.isAnnual = false) (h : p.quarterOrdinal = q.quarterOrdinal) : p.label = q.label := by
  cases hpq : p.fiscalQuarter with
  | none => simp [FiscalPeriod.isAnnual, hpq] at hp
  | some m =>
    cases hqq : q.fiscalQuarter with
    | none => simp [FiscalPeriod.isAnnual, hqq] at hq
    | some n =>
      have hm := p.quarter m hpq
      have hn := q.quarter n hqq
      simp only [FiscalPeriod.quarterOrdinal, hpq, hqq, Option.getD_some] at h
      have hyear : p.fiscalYear = q.fiscalYear := by omega
      have hquarter : m = n := by omega
      rw [FiscalPeriod.label, FiscalPeriod.label, hpq, hqq, hyear, hquarter]

variable {l l' : List FundamentalObservation}

theorem latestPeriod_congr (annual : Option Bool)
    (hids : ∀ a ∈ l, ∀ b ∈ l, a.recordId = b.recordId → a = b) (hmem : ∀ r, r ∈ l ↔ r ∈ l') :
    latestPeriod annual l = latestPeriod annual l' := by
  have hinj : ∀ a ∈ l'.filter (fun r => ∀ wanted ∈ annual, r.fiscalPeriod.isAnnual = wanted),
      ∀ b ∈ l'.filter (fun r => ∀ wanted ∈ annual, r.fiscalPeriod.isAnnual = wanted),
        (toLex (a.fiscalPeriod.end, toLex (a.fiscalPeriod.start, a.recordId)) :
            Instant ×ₗ Instant ×ₗ String) =
          toLex (b.fiscalPeriod.end, toLex (b.fiscalPeriod.start, b.recordId)) → a = b := by
    intro a ha b hb hab
    refine hids a ((hmem a).mpr (List.mem_filter.mp ha).1) b
      ((hmem b).mpr (List.mem_filter.mp hb).1) ?_
    exact congrArg (fun p => (ofLex (ofLex p).2).2) hab
  have hfilter : ∀ r, r ∈ l.filter (fun r => ∀ wanted ∈ annual, r.fiscalPeriod.isAnnual = wanted) ↔
      r ∈ l'.filter fun r => ∀ wanted ∈ annual, r.fiscalPeriod.isAnnual = wanted := by
    intro r
    rw [List.mem_filter, List.mem_filter, hmem]
  unfold latestPeriod
  cases hmax : maxBy (fun r : FundamentalObservation =>
      toLex (r.fiscalPeriod.end, toLex (r.fiscalPeriod.start, r.recordId)))
      (l.filter fun r => ∀ wanted ∈ annual, r.fiscalPeriod.isAnnual = wanted) with
  | some r =>
    refine (maxBy_eq hinj ((hfilter r).mp (mem_of_maxBy hmax)) ?_).symm
    intro b hb
    exact le_maxBy hmax b ((hfilter b).mpr hb)
  | none =>
    have hnil : l.filter (fun r => ∀ wanted ∈ annual, r.fiscalPeriod.isAnnual = wanted) = [] := by
      cases hl : l.filter (fun r => ∀ wanted ∈ annual, r.fiscalPeriod.isAnnual = wanted) with
      | nil => rfl
      | cons b rest =>
        rw [hl] at hmax
        cases hmax
    have hnil' : l'.filter (fun r => ∀ wanted ∈ annual, r.fiscalPeriod.isAnnual = wanted) = [] := by
      rw [List.eq_nil_iff_forall_not_mem]
      intro r hr
      have hin := (hfilter r).mpr hr
      rw [hnil] at hin
      cases hin
    rw [hnil']
    rfl

theorem latestQuarters_congr (hl : KeyedByPeriod l) (hl' : KeyedByPeriod l')
    (hmem : ∀ r, r ∈ l ↔ r ∈ l') : latestQuarters l = latestQuarters l' := by
  have hkeyed : ∀ {l : List FundamentalObservation}, KeyedByPeriod l →
      Keyed (fun r : FundamentalObservation => r.fiscalPeriod.quarterOrdinal)
        (l.filter fun r => ¬ r.fiscalPeriod.isAnnual) := by
    intro l hl
    refine List.Nodup.map_on ?_ (hl.nodup.filter _)
    intro a ha b hb hordinal
    obtain ⟨ha, hqa⟩ := List.mem_filter.mp ha
    obtain ⟨hb, hqb⟩ := List.mem_filter.mp hb
    exact hl.eq ha hb (label_eq_of_ordinal (by simpa using hqa) (by simpa using hqb) hordinal)
  have hsort : sortBy (fun r : FundamentalObservation => r.fiscalPeriod.quarterOrdinal)
      (l.filter fun r => ¬ r.fiscalPeriod.isAnnual) =
        sortBy (fun r : FundamentalObservation => r.fiscalPeriod.quarterOrdinal)
          (l'.filter fun r => ¬ r.fiscalPeriod.isAnnual) := by
    refine sortBy_eq_of_mem_iff (hkeyed hl) (hkeyed hl') fun r => ?_
    rw [List.mem_filter, List.mem_filter, hmem]
  unfold latestQuarters
  dsimp only
  rw [hsort]

theorem aggregateStep_congr (spec : FundamentalInput) (instant : Instant)
    (hids : ∀ a ∈ l, ∀ b ∈ l, a.recordId = b.recordId → a = b) (hl : KeyedByPeriod l)
    (hl' : KeyedByPeriod l') (hmem : ∀ r, r ∈ l ↔ r ∈ l') :
    aggregateStep subject spec instant l = aggregateStep subject spec instant l' := by
  simp only [aggregateStep, trailing, latestPeriod_congr _ hids hmem,
    latestQuarters_congr hl hl' hmem]

theorem ids_figuresAt :
    ∀ a ∈ figuresAt set visibility subject statement lineItem policy asOf,
      ∀ b ∈ figuresAt set visibility subject statement lineItem policy asOf,
        a.recordId = b.recordId → a = b := by
  intro a ha b hb
  exact set.agree.ids.eq (mem_figuresAt.mp ha).inPlay.held (mem_figuresAt.mp hb).inPlay.held

/-- **A step of the timeline is that of the figures recomputed.** -/
theorem aggregateStep_held (spec : FundamentalInput) (instant asOf : Instant) :
    aggregateStep subject spec instant
        (heldAt set visibility subject statement lineItem policy asOf).values =
      aggregateStep subject spec instant
        (figuresAt set visibility subject statement lineItem policy asOf) :=
  (aggregateStep_congr spec instant ids_figuresAt keyed_figuresAt keyed_held
    fun _ => mem_held.symm).symm

end

/-! ## Point reads -/

/-- `acc` with what a step reads as. -/
def FundamentalInputs.take (acc : FundamentalInputs) (name : String) (step : AggregateStep) :
    FundamentalInputs :=
  match step.value with
  | .ok (value, unit) => acc.define name value unit step.recordIds step.observedAt
  | .error reason => acc.lack name reason

structure Says (step : AggregateStep) (acc : FundamentalInputs) (name : String) : Prop where
  missing : acc.missing.get? name = match step.value with
    | .ok _ => none
    | .error reason => some reason
  value : acc.values.get? name = step.value.toOption.map Prod.fst
  unit : acc.units.get? name = step.value.toOption.map Prod.snd
  recordIds : acc.recordIds.get? name = step.value.toOption.map fun _ => step.recordIds
  observedAt : acc.observedAt.get? name = step.value.toOption.bind fun _ => step.observedAt

structure Unread (acc : FundamentalInputs) (name : String) : Prop where
  missing : acc.missing.get? name = none
  value : acc.values.get? name = none
  unit : acc.units.get? name = none
  recordIds : acc.recordIds.get? name = none
  observedAt : acc.observedAt.get? name = none

section
variable {acc : FundamentalInputs} {step : AggregateStep} {name other : String}

theorem says_take (h : Unread acc name) : Says step (acc.take name step) name := by
  unfold FundamentalInputs.take
  cases hvalue : step.value with
  | ok v =>
    constructor
    · simp [FundamentalInputs.define, h.missing, hvalue]
    · simp [FundamentalInputs.define, hvalue, Except.toOption]
    · simp [FundamentalInputs.define, hvalue, Except.toOption]
    · simp [FundamentalInputs.define, hvalue, Except.toOption]
    · cases hobserved : step.observedAt with
      | none => simp [FundamentalInputs.define, hvalue, Except.toOption, h.observedAt]
      | some o => simp [FundamentalInputs.define, hvalue, Except.toOption]
  | error reason =>
    constructor
    · simp [FundamentalInputs.lack, hvalue]
    · simp [FundamentalInputs.lack, hvalue, Except.toOption, h.value]
    · simp [FundamentalInputs.lack, hvalue, Except.toOption, h.unit]
    · simp [FundamentalInputs.lack, hvalue, Except.toOption, h.recordIds]
    · simp [FundamentalInputs.lack, hvalue, Except.toOption, h.observedAt]

variable (acc step) in
/-- The fields of an input that another input leaves as they were. -/
theorem take_others (hne : name ≠ other) :
    (acc.take other step).missing.get? name = acc.missing.get? name ∧
      (acc.take other step).values.get? name = acc.values.get? name ∧
      (acc.take other step).units.get? name = acc.units.get? name ∧
      (acc.take other step).recordIds.get? name = acc.recordIds.get? name ∧
      (acc.take other step).observedAt.get? name = acc.observedAt.get? name := by
  unfold FundamentalInputs.take
  cases step.value with
  | ok v =>
    refine ⟨rfl, ?_, ?_, ?_, ?_⟩
    · exact Dict.get?_set_of_ne _ _ hne
    · exact Dict.get?_set_of_ne _ _ hne
    · exact Dict.get?_set_of_ne _ _ hne
    · cases step.observedAt with
      | none => rfl
      | some o => exact Dict.get?_set_of_ne _ _ hne
  | error reason => exact ⟨Dict.get?_set_of_ne _ _ hne, rfl, rfl, rfl, rfl⟩

theorem Unread.take (h : Unread acc name) (hne : name ≠ other) :
    Unread (acc.take other step) name := by
  obtain ⟨hmissing, hvalue, hunit, hids, hobserved⟩ :=
    take_others acc step hne
  exact ⟨hmissing.trans h.missing, hvalue.trans h.value, hunit.trans h.unit,
    hids.trans h.recordIds, hobserved.trans h.observedAt⟩

theorem Says.take {said : AggregateStep} (h : Says said acc name) (hne : name ≠ other) :
    Says said (acc.take other step) name := by
  obtain ⟨hmissing, hvalue, hunit, hids, hobserved⟩ :=
    take_others acc step hne
  exact ⟨hmissing.trans h.missing, hvalue.trans h.value, hunit.trans h.unit,
    hids.trans h.recordIds, hobserved.trans h.observedAt⟩

end

section
variable {set : ObservationSet FundamentalObservation} {visibility : VisibilityRule}
  {subject : String} {policy : VintagePolicy} {asOf : Instant} {spec : FundamentalInput}

def stepFor (set : ObservationSet FundamentalObservation) (visibility : VisibilityRule)
    (subject : String) (policy : VintagePolicy) (spec : FundamentalInput) (asOf : Instant) :
    AggregateStep :=
  aggregateStep subject spec asOf
    (figuresAt set visibility subject spec.statement spec.lineItem policy asOf)

theorem latestFundamental_of (statement : StatementType) (lineItem : String)
    (annual : Option Bool) :
    latestFundamental (of set visibility) subject statement lineItem asOf policy annual =
      .ok (latestPeriod annual (figuresAt set visibility subject statement lineItem policy asOf)) := by
  rw [latestFundamental, chosenFigures_of]
  rfl

theorem readInput_of (acc : FundamentalInputs) (spec : FundamentalInput) :
    readInput (of set visibility) subject asOf policy acc spec =
      .ok (acc.take spec.name (stepFor set visibility subject policy spec asOf)) := by
  cases hkind : spec.aggregation with
  | trailingTwelveMonths =>
    have htrailing : trailingTwelveMonths (of set visibility) subject spec.statement spec.lineItem
        asOf policy = .ok (trailing subject spec.lineItem asOf
          (figuresAt set visibility subject spec.statement spec.lineItem policy asOf)) := by
      rw [trailingTwelveMonths, requireFlow, require, if_pos (spec.flow hkind), chosenFigures_of]
      rfl
    simp only [readInput, hkind, htrailing, latestFundamental_of, stepFor, aggregateStep,
      FundamentalInputs.take]
    cases hvalue : (trailing subject spec.lineItem asOf (figuresAt set visibility subject
        spec.statement spec.lineItem policy asOf)).value with
    | ok v => simp [hvalue, bind, Except.bind, Except.mapError]
    | error reason => simp [hvalue, bind, Except.bind]
  | latest | latestAnnual =>
    simp only [readInput, hkind, latestFundamental_of, stepFor, aggregateStep,
      FundamentalInputs.take]
    cases hlatest : latestPeriod _ (figuresAt set visibility subject spec.statement spec.lineItem
        policy asOf) with
    | none => simp [bind, Except.bind, Except.mapError]
    | some r => simp [bind, Except.bind, Except.mapError]

theorem says_of_fold {inputs : List FundamentalInput} {acc found : FundamentalInputs}
    (hnames : (inputs.map (·.name)).Nodup)
    (hfold : inputs.foldlM (readInput (of set visibility) subject asOf policy) acc = .ok found) :
    (∀ name, name ∉ inputs.map (·.name) → ∀ step, Says step acc name → Says step found name) ∧
      ∀ spec ∈ inputs, Unread acc spec.name →
        Says (stepFor set visibility subject policy spec asOf) found spec.name := by
  induction inputs generalizing acc with
  | nil =>
    rw [List.foldlM_nil, pure_ok] at hfold
    subst hfold
    exact ⟨fun _ _ _ h => h, by simp⟩
  | cons first later ih =>
    rw [List.map_cons, List.nodup_cons] at hnames
    rw [List.foldlM_cons, readInput_of] at hfold
    obtain ⟨hothers, hreads⟩ := ih hnames.2 hfold
    constructor
    · intro name hname step hsaid
      rw [List.map_cons, List.mem_cons, not_or] at hname
      exact hothers name hname.2 step (hsaid.take hname.1)
    · intro spec hspec hunread
      rcases List.mem_cons.mp hspec with rfl | hlater
      · exact hothers _ hnames.1 _ (says_take hunread)
      · have hne : spec.name ≠ first.name := by
          intro heq
          exact hnames.1 (heq ▸ List.mem_map_of_mem hlater)
        exact hreads spec hlater (hunread.take hne)

/-- **A point read of an input says what the step for its instant does.** -/
theorem inputs_say {inputs : List FundamentalInput} (hspec : spec ∈ inputs)
    (hnames : (inputs.map (·.name)).Nodup) :
    ∃ acc, fundamentalInputsAsOf (of set visibility) subject asOf policy inputs = .ok acc ∧
      Says (stepFor set visibility subject policy spec asOf) acc spec.name := by
  have htotal : ∀ (inputs : List FundamentalInput) (acc : FundamentalInputs),
      ∃ found, inputs.foldlM (readInput (of set visibility) subject asOf policy) acc = .ok found := by
    intro inputs
    induction inputs with
    | nil => exact fun acc => ⟨acc, rfl⟩
    | cons first later ih =>
      intro acc
      rw [List.foldlM_cons, readInput_of]
      exact ih _
  obtain ⟨found, hfound⟩ := htotal inputs ⟨subject, asOf, (of set visibility).visibility, policy,
    .empty, .empty, .empty, .empty, .empty⟩
  refine ⟨found, ?_, (says_of_fold hnames hfound).2 spec hspec ⟨rfl, rfl, rfl, rfl, rfl⟩⟩
  rw [fundamentalInputsAsOf, require, if_pos (List.ne_nil_of_mem hspec), require, if_pos hnames]
  exact hfound

def stepAt (asOf : Instant) (steps : List AggregateStep) : Option AggregateStep :=
  (steps.filter fun step => step.knownAt ≤ asOf).getLast?

/-- The last step at or before an instant answers as an input read there: it is undefined or
    absent where the input is missing, and has its value, unit, records and observation. -/
structure Answers (step : Option AggregateStep) (acc : FundamentalInputs) (name : String) :
    Prop where
  missing : (acc.missing.get? name).isSome ↔ ∀ s ∈ step, s.value.toOption = none
  defined : ∀ s ∈ step, ∀ v ∈ s.value.toOption,
    acc.values.get? name = some v.1 ∧ acc.units.get? name = some v.2 ∧
      acc.recordIds.get? name = some s.recordIds ∧ acc.observedAt.get? name = s.observedAt

def quartersAt (set : ObservationSet FundamentalObservation) (visibility : VisibilityRule)
    (subject : String) (policy : VintagePolicy) (spec : FundamentalInput) (asOf : Instant) :
    List FundamentalObservation :=
  latestQuarters (figuresAt set visibility subject spec.statement spec.lineItem policy asOf)

def latestEnd (set : ObservationSet FundamentalObservation) (visibility : VisibilityRule)
    (subject : String) (policy : VintagePolicy) (spec : FundamentalInput) (asOf : Instant) :
    Option Instant :=
  (latestPeriod (some false)
    (figuresAt set visibility subject spec.statement spec.lineItem policy asOf)).map
      (·.fiscalPeriod.end)

/-- While the four quarters that are summed stay, no other quarter ends later than was known. -/
def EndSettled (set : ObservationSet FundamentalObservation) (visibility : VisibilityRule)
    (subject : String) (policy : VintagePolicy) (spec : FundamentalInput) : Prop :=
  spec.aggregation = .trailingTwelveMonths → ∀ s t : Instant, s ≤ t →
    (sumQuarters (quartersAt set visibility subject policy spec s)).toOption.isSome →
    (∀ u, s ≤ u → u ≤ t → quartersAt set visibility subject policy spec u =
      quartersAt set visibility subject policy spec s) →
    latestEnd set visibility subject policy spec s = latestEnd set visibility subject policy spec t

theorem reads_instant (i j : Instant) (l : List FundamentalObservation) :
    (aggregateStep subject spec i l).reads = (aggregateStep subject spec j l).reads := by
  cases hkind : spec.aggregation with
  | trailingTwelveMonths =>
    simp only [aggregateStep, hkind, trailing]
    cases sumQuarters (latestQuarters l) <;> rfl
  | latest | latestAnnual =>
    simp only [aggregateStep, hkind]
    cases latestPeriod _ l <;> rfl

variable (set visibility subject policy asOf) in
theorem stepFor_twelve (hkind : spec.aggregation = .trailingTwelveMonths) :
    (stepFor set visibility subject policy spec asOf).value.toOption =
        (sumQuarters (quartersAt set visibility subject policy spec asOf)).toOption.map
          (fun v => (v.1, v.2.1)) ∧
      (stepFor set visibility subject policy spec asOf).recordIds =
        (sumQuarters (quartersAt set visibility subject policy spec asOf)).toOption.elim []
          (fun v => v.2.2) ∧
      (stepFor set visibility subject policy spec asOf).observedAt =
        latestEnd set visibility subject policy spec asOf := by
  simp only [stepFor, aggregateStep, hkind, trailing, quartersAt, latestEnd]
  cases sumQuarters (latestQuarters (figuresAt set visibility subject spec.statement
      spec.lineItem policy asOf)) with
  | error reason => exact ⟨rfl, rfl, rfl⟩
  | ok v => exact ⟨rfl, rfl, rfl⟩

variable (set visibility subject policy asOf) in
theorem stepFor_single (hkind : spec.aggregation ≠ .trailingTwelveMonths) :
    ∃ latest : Option FundamentalObservation,
      (∀ r ∈ latest, r ∈ set.records) ∧
      (stepFor set visibility subject policy spec asOf).value.toOption =
        latest.map (fun r => (r.value, r.unit)) ∧
      (stepFor set visibility subject policy spec asOf).recordIds =
        latest.elim [] (fun r => [r.recordId]) ∧
      (stepFor set visibility subject policy spec asOf).observedAt =
        latest.map (·.fiscalPeriod.end) := by
  refine ⟨latestPeriod spec.aggregation.annual
    (figuresAt set visibility subject spec.statement spec.lineItem policy asOf), ?_, ?_⟩
  · intro r hr
    exact (mem_figuresAt.mp (mem_of_latestPeriod hr)).inPlay.held
  · cases hagg : spec.aggregation with
    | trailingTwelveMonths => exact absurd hagg hkind
    | latest | latestAnnual =>
      simp only [stepFor, aggregateStep, hagg]
      cases latestPeriod _ (figuresAt set visibility subject spec.statement spec.lineItem
        policy asOf) with
      | none => exact ⟨rfl, rfl, rfl⟩
      | some r => exact ⟨rfl, rfl, rfl⟩

/-- Sums of quarters of a set that name the same records are of the same quarters. -/
theorem quartersAt_eq_of_ids {i j : Instant} {v w : Decimal × String × List String}
    (hv : sumQuarters (quartersAt set visibility subject policy spec i) = .ok v)
    (hw : sumQuarters (quartersAt set visibility subject policy spec j) = .ok w)
    (hids : v.2.2 = w.2.2) : quartersAt set visibility subject policy spec i =
      quartersAt set visibility subject policy spec j := by
  rw [sumQuarters_ids hv, sumQuarters_ids hw] at hids
  have hheld : ∀ k, ∀ r ∈ quartersAt set visibility subject policy spec k, r ∈ set.records :=
    fun k r hr => (mem_figuresAt.mp (mem_of_latestQuarters hr)).inPlay.held
  have hlength := congrArg List.length hids
  rw [List.length_map, List.length_map] at hlength
  refine List.ext_getElem hlength fun n hn hn' => ?_
  refine set.agree.ids.eq (hheld i _ (List.getElem_mem hn)) (hheld j _ (List.getElem_mem hn')) ?_
  have hget := congrArg (fun l : List String => l[n]?) hids
  have hsame : (quartersAt set visibility subject policy spec i)[n].recordId =
      (quartersAt set visibility subject policy spec j)[n].recordId := by
    simpa [hn, hn'] using hget
  exact hsame

/-- **Steps that read alike are of the same figures**: they differ in the last end at most, and
    that only for twelve months. -/
theorem same_of_reads {i j : Instant}
    (h : (stepFor set visibility subject policy spec i).reads =
      (stepFor set visibility subject policy spec j).reads) :
    (stepFor set visibility subject policy spec i).value.toOption =
        (stepFor set visibility subject policy spec j).value.toOption ∧
      ((stepFor set visibility subject policy spec j).value.toOption.isSome →
        (spec.aggregation = .trailingTwelveMonths →
          quartersAt set visibility subject policy spec i =
            quartersAt set visibility subject policy spec j) ∧
        (spec.aggregation ≠ .trailingTwelveMonths →
          (stepFor set visibility subject policy spec i).observedAt =
            (stepFor set visibility subject policy spec j).observedAt)) := by
  have hvalue := congrArg Prod.fst h
  have hids := congrArg Prod.snd h
  simp only [AggregateStep.reads] at hvalue hids
  by_cases hkind : spec.aggregation = .trailingTwelveMonths
  · obtain ⟨hvi, hidi, -⟩ := stepFor_twelve set visibility subject policy i hkind
    obtain ⟨hvj, hidj, -⟩ := stepFor_twelve set visibility subject policy j hkind
    rw [hvi, hvj] at hvalue ⊢
    rw [hidi, hidj] at hids
    cases hi : sumQuarters (quartersAt set visibility subject policy spec i) with
    | error reason =>
      cases hj : sumQuarters (quartersAt set visibility subject policy spec j) with
      | error reason' => exact ⟨rfl, fun hsome => nomatch hsome⟩
      | ok w => simp [hi, hj, Except.toOption] at hvalue
    | ok v =>
      cases hj : sumQuarters (quartersAt set visibility subject policy spec j) with
      | error reason => simp [hi, hj, Except.toOption] at hvalue
      | ok w =>
        have hquarters := quartersAt_eq_of_ids hi hj (by simpa [hi, hj, Except.toOption] using hids)
        rw [hquarters, hj] at hi
        obtain rfl := Except.ok.inj hi
        exact ⟨rfl, fun _ => ⟨fun _ => hquarters, fun hne => absurd hkind hne⟩⟩
  · obtain ⟨ri, hri, hvi, hidi, hobsi⟩ := stepFor_single set visibility subject policy i hkind
    obtain ⟨rj, hrj, hvj, hidj, hobsj⟩ := stepFor_single set visibility subject policy j hkind
    have hsame : ri = rj := by
      rw [hidi, hidj] at hids
      cases ri with
      | none =>
        cases rj with
        | none => rfl
        | some b => simp at hids
      | some a =>
        cases rj with
        | none => simp at hids
        | some b =>
          have hid : a.recordId = b.recordId := by simpa using hids
          rw [set.agree.ids.eq (hri a rfl) (hrj b rfl) hid]
    subst hsame
    rw [hvi, hvj, hobsi, hobsj]
    exact ⟨rfl, fun _ => ⟨fun h => absurd h hkind, fun _ => rfl⟩⟩

/-! ### The last step -/

def timelineOf (set : ObservationSet FundamentalObservation) (visibility : VisibilityRule)
    (subject : String) (policy : VintagePolicy) (spec : FundamentalInput) : List AggregateStep :=
  sweep (holdPeriod policy)
    (emitChange (fun i d => aggregateStep subject spec i d.values) AggregateStep.reads)
    (arrivingInOrder set visibility subject spec.statement spec.lineItem) Dict.empty []

theorem aggregateTimeline_of : aggregateTimeline (of set visibility) subject policy spec =
    .ok (timelineOf set visibility subject policy spec) := timeline_of spec

theorem arrivingInOrder_sorted :
    (arrivingInOrder set visibility subject spec.statement spec.lineItem).Pairwise
      fun a b => a.1 ≤ b.1 := arrivals_sorted set visibility subject spec

/-- The last step is the last of a sweep of what arrived by then. -/
theorem stepAt_timeline (asOf : Instant) :
    stepAt asOf (timelineOf set visibility subject policy spec) =
      (sweep (holdPeriod policy)
        (emitChange (fun i d => aggregateStep subject spec i d.values) AggregateStep.reads)
        ((arrivingInOrder set visibility subject spec.statement spec.lineItem).filter
          fun e => e.1 ≤ asOf) Dict.empty []).getLast? := by
  have hemits : EmitsAt AggregateStep.knownAt (emitChange
      (fun i (d : Dict String FundamentalObservation) => aggregateStep subject spec i d.values)
      AggregateStep.reads) := emitsAt_appendStep spec
  rw [stepAt, timelineOf, filter_sweep_eq hemits arrivingInOrder_sorted]

theorem reads_held (i asOf : Instant) :
    (aggregateStep subject spec i
      (heldAt set visibility subject spec.statement spec.lineItem policy asOf).values).reads =
        (stepFor set visibility subject policy spec asOf).reads := by
  rw [aggregateStep_held, stepFor, reads_instant i asOf]

theorem stateAt_filter {α σ : Type} {step : σ → α → σ} {l : List (Instant × α)} {s : σ}
    {u t : Instant} (hu : u ≤ t) :
    stateAt step (l.filter fun e => e.1 ≤ t) s u = stateAt step l s u := by
  rw [stateAt, stateAt, List.filter_filter]
  congr 1
  refine List.filter_congr fun e _ => ?_
  by_cases he : e.1 ≤ u
  · simp [he, he.trans hu]
  · simp [he]

theorem filter_le_split {α : Type} {l : List (Instant × α)} {s t : Instant}
    (hsorted : l.Pairwise fun a b => a.1 ≤ b.1) (hst : s ≤ t) :
    l.filter (fun e => e.1 ≤ t) =
      l.filter (fun e => e.1 ≤ s) ++ l.filter fun e => s < e.1 ∧ e.1 ≤ t := by
  induction l with
  | nil => rfl
  | cons e l ih =>
    obtain ⟨hle, hl⟩ := List.pairwise_cons.mp hsorted
    by_cases hes : e.1 ≤ s
    · rw [List.filter_cons_of_pos (by simpa using hes.trans hst),
        List.filter_cons_of_pos (by simpa using hes), List.filter_cons_of_neg (by simp [hes]), ih hl,
        List.cons_append]
    · have hnone : (e :: l).filter (fun e => e.1 ≤ s) = [] := by
        refine List.filter_eq_nil_iff.mpr fun f hf => ?_
        rcases List.mem_cons.mp hf with rfl | hf
        · simpa using hes
        · have hlt := (not_le.mp hes).trans_le (hle f hf)
          simpa using hlt
      rw [hnone, List.nil_append]
      refine List.filter_congr fun f hf => ?_
      have hlt : s < f.1 := by
        rcases List.mem_cons.mp hf with rfl | hf
        · exact not_le.mp hes
        · exact (not_le.mp hes).trans_le (hle f hf)
      simp [hlt]

/-- **Since when the last step reads as it does**: since the instant it was emitted at; and
    before the first arrival there is none, and nothing to read. -/
theorem stepAt_cases (asOf : Instant) :
    (stepAt asOf (timelineOf set visibility subject policy spec) = none ∧
      (stepFor set visibility subject policy spec asOf).value.toOption = none) ∨
    ∃ i ≤ asOf, stepAt asOf (timelineOf set visibility subject policy spec) =
        some (stepFor set visibility subject policy spec i) ∧
      ∀ u, i ≤ u → u ≤ asOf → (stepFor set visibility subject policy spec u).reads =
        (stepFor set visibility subject policy spec i).reads := by
  have hread : ∀ (i : Instant) (d : Dict String FundamentalObservation),
      (aggregateStep subject spec i d.values).reads =
        (aggregateStep subject spec 0 d.values).reads := fun i d => reads_instant i 0 d.values
  have hsorted : ((arrivingInOrder set visibility subject spec.statement spec.lineItem).filter
      fun e => e.1 ≤ asOf).Pairwise fun a b => a.1 ≤ b.1 :=
    arrivingInOrder_sorted.sublist List.filter_sublist
  have hheld : ∀ u ≤ asOf, stateAt (holdPeriod policy)
      ((arrivingInOrder set visibility subject spec.statement spec.lineItem).filter
        fun e => e.1 ≤ asOf) Dict.empty u =
      heldAt set visibility subject spec.statement spec.lineItem policy u :=
    fun u hu => stateAt_filter hu
  rw [stepAt_timeline]
  rcases last_emitChange hread Dict.empty [] hsorted with
    ⟨hlast, hsaid⟩ | ⟨i, ⟨e, he, rfl⟩, hlast, hsaid⟩
  · refine Or.inl ⟨hlast, ?_⟩
    have hnone : ∀ r, ¬ InPlay set visibility subject spec.statement spec.lineItem asOf r := by
      intro r hr
      obtain ⟨e, he, -⟩ := List.mem_map.mp (mem_arrivals.mpr hr)
      have hsome := hsaid asOf ⟨e, he, by simpa using (List.mem_filter.mp he).2⟩
      cases hsome
    have hnil : figuresAt set visibility subject spec.statement spec.lineItem policy asOf = [] := by
      rw [List.eq_nil_iff_forall_not_mem]
      exact fun r hr => hnone r (mem_figuresAt.mp hr).inPlay
    rw [stepFor, hnil]
    cases hkind : spec.aggregation <;> simp only [aggregateStep, hkind] <;> rfl
  · have hle : e.1 ≤ asOf := by simpa using (List.mem_filter.mp he).2
    refine Or.inr ⟨e.1, hle, ?_, ?_⟩
    · refine hlast.trans (congrArg some ?_)
      rw [hheld e.1 hle]
      exact aggregateStep_held spec e.1 e.1
    · intro u hu huasOf
      have hsame := hsaid u hu
      rw [hheld u huasOf, hheld e.1 hle] at hsame
      rw [← reads_held 0 u, ← reads_held 0 e.1]
      exact hsame

/-- While what is read stays the same, so does the last step. -/
theorem stepAt_settled {s t : Instant} (hst : s ≤ t)
    (hsome : (stepFor set visibility subject policy spec s).value.toOption.isSome)
    (hreads : ∀ u, s ≤ u → u ≤ t → (stepFor set visibility subject policy spec u).reads =
      (stepFor set visibility subject policy spec s).reads) :
    stepAt t (timelineOf set visibility subject policy spec) =
      stepAt s (timelineOf set visibility subject policy spec) := by
  have hread : ∀ (i : Instant) (d : Dict String FundamentalObservation),
      (aggregateStep subject spec i d.values).reads =
        (aggregateStep subject spec 0 d.values).reads := fun i d => reads_instant i 0 d.values
  have hlast : (stepAt s (timelineOf set visibility subject policy spec)).map AggregateStep.reads =
      some (stepFor set visibility subject policy spec s).reads := by
    rcases stepAt_cases s with ⟨-, hnone⟩ | ⟨i, hi, hstep, hsame⟩
    · rw [hnone] at hsome
      cases hsome
    · rw [hstep, Option.map_some, hsame s hi le_rfl]
  rw [stepAt_timeline] at hlast
  -- what arrives in between changes nothing that is read
  have hsplit : (arrivingInOrder set visibility subject spec.statement spec.lineItem).filter
      (fun e => e.1 ≤ t) =
    (arrivingInOrder set visibility subject spec.statement spec.lineItem).filter
        (fun e => e.1 ≤ s) ++
      (arrivingInOrder set visibility subject spec.statement spec.lineItem).filter
        fun e => s < e.1 ∧ e.1 ≤ t := filter_le_split arrivingInOrder_sorted hst
  rw [stepAt_timeline, stepAt_timeline, hsplit, sweep_append]
  · rw [sweep_settled hread (arrivingInOrder_sorted.sublist List.filter_sublist) hlast]
    rintro u ⟨e, he, rfl⟩
    have hbetween : s < e.1 ∧ e.1 ≤ t := by simpa using (List.mem_filter.mp he).2
    have hstate : stateAt (holdPeriod policy)
        ((arrivingInOrder set visibility subject spec.statement spec.lineItem).filter
          fun e => s < e.1 ∧ e.1 ≤ t)
        (((arrivingInOrder set visibility subject spec.statement spec.lineItem).filter
          fun e => e.1 ≤ s).foldl (fun d e => holdPeriod policy d e.2) Dict.empty) e.1 =
        heldAt set visibility subject spec.statement spec.lineItem policy e.1 := by
      rw [heldAt, stateAt, stateAt, filter_le_split arrivingInOrder_sorted hbetween.1.le,
        List.foldl_append, List.filter_filter]
      congr 1
      refine List.filter_congr fun f _ => ?_
      by_cases hf : f.1 ≤ e.1
      · simp [hf, hf.trans hbetween.2]
      · simp [hf]
    rw [hstate, reads_held]
    exact hreads e.1 hbetween.1.le hbetween.2
  · intro a ha b hb
    have ha : a.1 ≤ s := by simpa using (List.mem_filter.mp ha).2
    have hb : s < b.1 ∧ b.1 ≤ t := by simpa using (List.mem_filter.mp hb).2
    exact ha.trans_lt hb.1

variable {i : Instant}

theorem answers_of_says {acc : FundamentalInputs} {name : String}
    (hsaid : Says (stepFor set visibility subject policy spec asOf) acc name) (hreads : (stepFor set
      visibility subject policy spec i).reads = (stepFor set visibility subject policy spec
      asOf).reads) (hobserved : (stepFor set visibility subject policy spec
      asOf).value.toOption.isSome → (stepFor set visibility subject policy spec i).observedAt =
      (stepFor set visibility subject policy spec asOf).observedAt) :
    Answers (some (stepFor set visibility subject policy spec i)) acc name := by
  obtain ⟨hvalue, -⟩ := same_of_reads hreads
  have hids : (stepFor set visibility subject policy spec i).recordIds =
      (stepFor set visibility subject policy spec asOf).recordIds := congrArg Prod.snd hreads
  constructor
  · rw [hsaid.missing]
    simp only [Option.mem_some, forall_eq', hvalue]
    cases (stepFor set visibility subject policy spec asOf).value <;> simp [Except.toOption]
  · intro step hstep v hv
    obtain rfl := Option.some.inj (Option.mem_def.mp hstep)
    rw [hvalue, Option.mem_def] at hv
    rw [hsaid.value, hsaid.unit, hsaid.recordIds, hsaid.observedAt, hids, hv,
      hobserved (by rw [hv]; rfl)]
    exact ⟨rfl, rfl, rfl, rfl⟩

variable (set visibility subject policy spec)

/-- **The last step of a timeline answers as the point read does, at every instant and among
    any inputs, if and only if the latest end is settled**: for a single figure it always
    does. -/
theorem aggregate_answers_iff :
    (∀ asOf inputs, spec ∈ inputs → (inputs.map (·.name)).Nodup → ∃ steps acc,
      aggregateTimeline (of set visibility) subject policy spec = .ok steps ∧
        fundamentalInputsAsOf (of set visibility) subject asOf policy inputs = .ok acc ∧
        Answers (stepAt asOf steps) acc spec.name) ↔
      EndSettled set visibility subject policy spec := by
  constructor
  · intro hanswers hkind s t hst hsome hquarters
    have hvalue : ∀ u, s ≤ u → u ≤ t → (stepFor set visibility subject policy spec u).reads =
        (stepFor set visibility subject policy spec s).reads := by
      intro u hsu hut
      obtain ⟨hvu, hidu, -⟩ := stepFor_twelve set visibility subject policy u hkind
      obtain ⟨hvs, hids, -⟩ := stepFor_twelve set visibility subject policy s hkind
      rw [AggregateStep.reads, AggregateStep.reads, hvu, hvs, hidu, hids, hquarters u hsu hut]
    have hdefined : ∀ u, s ≤ u → u ≤ t →
        (stepFor set visibility subject policy spec u).value.toOption.isSome := by
      intro u hsu hut
      rw [(stepFor_twelve set visibility subject policy u hkind).1, hquarters u hsu hut]
      simpa using hsome
    -- one step answers at both instants, with one observation
    have hobserved : ∀ u, s ≤ u → u ≤ t →
        ∃ b, stepAt u (timelineOf set visibility subject policy spec) = some b ∧
          b.observedAt = latestEnd set visibility subject policy spec u := by
      intro u hsu hut
      obtain ⟨steps, acc, hsteps, hacc, hanswer⟩ :=
        hanswers u [spec] (by simp) (by simp)
      rw [aggregateTimeline_of] at hsteps
      obtain rfl := Except.ok.inj hsteps
      obtain ⟨acc', hacc', hsaid⟩ :
          ∃ acc, fundamentalInputsAsOf (of set visibility) subject u policy [spec] = .ok acc ∧
            Says (stepFor set visibility subject policy spec u) acc spec.name :=
        inputs_say (by simp) (by simp)
      rw [hacc] at hacc'
      obtain rfl := Except.ok.inj hacc'
      obtain ⟨v, hv⟩ := Option.isSome_iff_exists.mp (hdefined u hsu hut)
      have hpresent : ¬ (acc.missing.get? spec.name).isSome := by
        rw [hsaid.missing]
        cases hval : (stepFor set visibility subject policy spec u).value with
        | ok w => simp
        | error reason =>
          rw [hval] at hv
          cases hv
      rw [hanswer.missing] at hpresent
      push Not at hpresent
      obtain ⟨b, hb, hbv⟩ := hpresent
      obtain ⟨w, hw⟩ := Option.ne_none_iff_exists'.mp hbv
      have hsame := (hanswer.defined b hb w hw).2.2.2
      rw [hsaid.observedAt, hv] at hsame
      refine ⟨b, hb, ?_⟩
      rw [← hsame, ← (stepFor_twelve set visibility subject policy u hkind).2.2]
      rfl
    obtain ⟨b, hb, hbs⟩ := hobserved s le_rfl hst
    obtain ⟨c, hc, hct⟩ := hobserved t hst le_rfl
    rw [stepAt_settled hst (hdefined s le_rfl hst) hvalue, hb] at hc
    obtain rfl := Option.some.inj hc
    exact hbs.symm.trans hct
  · intro hsettled asOf inputs hspec hnames
    obtain ⟨acc, hacc, hsaid⟩ := inputs_say hspec hnames
    refine ⟨_, acc, aggregateTimeline_of, hacc, ?_⟩
    rcases stepAt_cases asOf with ⟨hstep, hnone⟩ | ⟨i, hi, hstep, hsame⟩
    · rw [hstep]
      refine ⟨iff_of_true ?_ (by simp), by simp⟩
      rw [hsaid.missing]
      cases hval : (stepFor set visibility subject policy spec asOf).value with
      | ok w =>
        rw [hval] at hnone
        cases hnone
      | error reason => rfl
    · rw [hstep]
      refine answers_of_says hsaid (hsame asOf hi le_rfl).symm fun hsome => ?_
      by_cases hkind : spec.aggregation = .trailingTwelveMonths
      · have hdefined : ∀ u, i ≤ u → u ≤ asOf →
            quartersAt set visibility subject policy spec u =
              quartersAt set visibility subject policy spec i := by
          intro u hu hule
          obtain ⟨hvalue, -⟩ := same_of_reads (hsame asOf hi le_rfl).symm
          obtain ⟨-, hsamefigures⟩ := same_of_reads (hsame u hu hule)
          exact (hsamefigures (by rw [hvalue]; exact hsome)).1 hkind
        rw [(stepFor_twelve set visibility subject policy i hkind).2.2,
          (stepFor_twelve set visibility subject policy asOf hkind).2.2]
        refine hsettled hkind i asOf hi ?_ hdefined
        rw [← hdefined asOf hi le_rfl]
        rw [(stepFor_twelve set visibility subject policy asOf hkind).1] at hsome
        simpa using hsome
      · exact ((same_of_reads (hsame asOf hi le_rfl).symm).2 hsome).2 hkind

end

/-- Four quarters known at 5, and at 7 one of the year before, which ended at 6. -/
def fiveQuarters : List FundamentalObservation :=
  [quarterFiled 2024 1 0 1 5 "first", quarterFiled 2024 2 0 2 5 "second",
    quarterFiled 2024 3 0 3 5 "third", quarterFiled 2024 4 0 4 5 "fourth",
    quarterFiled 2023 4 0 6 7 "before"]

def fiveQuartersSet : ObservationSet FundamentalObservation where
  name := figuresName
  kind := "alphalab.fundamental.v1"
  source := ⟨"filings", none, none, none⟩
  records := fiveQuarters
  parentVersion := none
  transformations := []
  checked := by decide +kernel

def trailingRevenue : FundamentalInput :=
  ⟨"earnings", .incomeStatement, "revenue", .trailingTwelveMonths, fun _ => rfl⟩

/-- Once the fifth quarter is known the point read says that the figure is observed at 6, and the
    timeline's last step still says 4. -/
theorem later_end_missed :
    ¬ ∃ steps acc,
      aggregateTimeline (of fiveQuartersSet .publication) "ISSUER" .asKnown trailingRevenue =
          .ok steps ∧
        fundamentalInputsAsOf (of fiveQuartersSet .publication) "ISSUER" 7 .asKnown
          [trailingRevenue] = .ok acc ∧
        Answers (stepAt 7 steps) acc trailingRevenue.name := by
  rintro ⟨steps, acc, hsteps, hacc, hanswer⟩
  have hstep : (aggregateTimeline (of fiveQuartersSet .publication) "ISSUER" .asKnown
      trailingRevenue).toOption.bind (fun steps => (stepAt 7 steps).map fun step =>
        (step.value.toOption, step.observedAt)) = some (some (400, "USD"), some 4) := by
    decide +kernel
  have hread : (fundamentalInputsAsOf (of fiveQuartersSet .publication) "ISSUER" 7 .asKnown
      [trailingRevenue]).toOption.bind (fun acc => acc.observedAt.get? "earnings") = some 6 := by
    decide +kernel
  rw [hsteps] at hstep
  rw [hacc] at hread
  obtain ⟨step, hmem, hvalue⟩ := Option.map_eq_some_iff.mp hstep
  obtain ⟨hdefined, hobserved⟩ := Prod.mk.inj hvalue
  have hsame := (hanswer.defined step hmem _ hdefined).2.2.2
  have hsix : acc.observedAt.get? "earnings" = some 6 := hread
  rw [show trailingRevenue.name = "earnings" from rfl, hsix, hobserved] at hsame
  exact absurd hsame (by decide +kernel)

end AlphaLab
