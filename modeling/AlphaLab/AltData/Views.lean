/-
  A set of records indexed for questions at an instant (`common/point_in_time.py`,
  `alt_data/observation_set.py`).

  * `PointInTimeIndex` orders records by when they become known; `visibleAsOf` bisects it;
  * `ObservationView` indexes a set as a whole, by series and by figure, and reads it:
    `select`, `visibleInSeries`, `latestInSeries`, `latestTimeline` and `vintageAsOf`.
-/
import AlphaLab.Lib.Sweep
import AlphaLab.AltData.Acceptance

namespace AlphaLab

open Fallible SetRecord

variable {T : Type} [SetRecord T]

/-! ## Indexes -/

def knownOf (visibility : VisibilityRule) (records : List T) : List (Instant × T) :=
  records.filterMap fun r => ((stamp r).knownAt visibility).map (·, r)

/-- `(known_at, observed_at, record_id)`: the order of an index. -/
def knowledge (e : Instant × T) : Instant ×ₗ Instant ×ₗ String := toLex (e.1, position e.2)

/-- `PointInTimeIndex`: the records that become known, with their instants, and the others. -/
structure PointInTimeIndex (T : Type) where
  visibility : VisibilityRule
  known : List (Instant × T)
  unverified : List T
  ordered : known.Pairwise fun a b => a.1 ≤ b.1

namespace PointInTimeIndex

def build (visibility : VisibilityRule) (records : List T)
    (_once : Keyed (recordId : T → String) records) : PointInTimeIndex T where
  visibility := visibility
  known := sortBy knowledge (knownOf visibility records)
  unverified := sortBy recordId (records.filter fun r => (stamp r).knownAt visibility = none)
  ordered := sortBy_lex_sorted Prod.fst (fun e => position e.2) _

variable (index : PointInTimeIndex T)

def records : List T := index.known.map Prod.snd

def knownInstants : List Instant := index.known.map Prod.fst

/-- `count_visible`: `bisect_right` of the instants. -/
def countVisible (asOf : Instant) : ℕ := (index.knownInstants.takeWhile (· ≤ asOf)).length

def visibleAsOf (asOf : Instant) : List T := index.records.take (index.countVisible asOf)

end PointInTimeIndex

/-! ### What is visible -/

section
variable {visibility : VisibilityRule} {l l' : List T} {e : Instant × T} {r : T} {bound asOf : Instant}

theorem isVisible_iff : isVisible asOf visibility r ↔
    ∃ known, (stamp r).knownAt visibility = some known ∧ known ≤ asOf := by
  simp [isVisible, PointInTimeStamp.isVisible, Option.any_eq_true]

theorem availableAt_ne_none (h : isVisible asOf visibility r) : availableAt r ≠ none := by
  obtain ⟨known, hknown, -⟩ := isVisible_iff.mp h
  obtain ⟨available, havailable, -⟩ := (stamp r).availableAt_le_of_knownAt hknown
  exact fun hnone => nomatch (Option.mem_def.mp havailable).symm.trans hnone

theorem mem_knownOf : e ∈ knownOf visibility l ↔
    e.2 ∈ l ∧ (stamp e.2).knownAt visibility = some e.1 := by
  obtain ⟨known, r⟩ := e
  simp only [knownOf, List.mem_filterMap, Option.map_eq_some_iff, Prod.mk.injEq]
  constructor
  · rintro ⟨r', hr', known', hknown, rfl, rfl⟩
    exact ⟨hr', hknown⟩
  · rintro ⟨hr, hknown⟩
    exact ⟨r, hr, known, hknown, rfl, rfl⟩

theorem keyed_knowledge (h : Keyed (recordId : T → String) l) :
    Keyed knowledge (knownOf visibility l) := by
  have hnodup : (knownOf visibility l).Nodup := by
    refine h.nodup.filterMap fun a b e ha hb => ?_
    obtain ⟨_, -, rfl⟩ := Option.map_eq_some_iff.mp ha
    obtain ⟨_, -, heq⟩ := Option.map_eq_some_iff.mp hb
    exact (congrArg Prod.snd heq).symm
  refine List.Nodup.map_on (fun a ha b hb hab => ?_) hnodup
  have hinstant : a.1 = b.1 := congrArg (fun p => (ofLex p).1) hab
  have hid : recordId a.2 = recordId b.2 := congrArg (fun p => (ofLex (ofLex p).2).2) hab
  exact Prod.ext hinstant (h.eq (mem_knownOf.mp ha).1 (mem_knownOf.mp hb).1 hid)

namespace PointInTimeIndex

omit [SetRecord T] in
/-- **Bisecting takes what is known by then.** -/
theorem visibleAsOf_eq (index : PointInTimeIndex T) (asOf : Instant) :
    index.visibleAsOf asOf = (index.known.filter fun e => e.1 ≤ asOf).map Prod.snd := by
  have hcount : index.countVisible asOf = (index.known.takeWhile fun e => e.1 ≤ asOf).length := by
    rw [countVisible, knownInstants, List.takeWhile_map, List.length_map]
    rfl
  rw [visibleAsOf, hcount, records, ← List.map_take,
    ← List.prefix_iff_eq_take.mp (List.takeWhile_prefix _), takeWhile_eq_filter index.ordered]

variable {h : Keyed (recordId : T → String) l} {h' : Keyed (recordId : T → String) l'}

theorem mem_known : e ∈ (build visibility l h).known ↔
    e.2 ∈ l ∧ (stamp e.2).knownAt visibility = some e.1 := mem_sortBy.trans mem_knownOf

theorem mem_visibleAsOf :
    r ∈ (build visibility l h).visibleAsOf asOf ↔ r ∈ l ∧ isVisible asOf visibility r := by
  rw [visibleAsOf_eq, isVisible_iff]
  simp only [List.mem_map, List.mem_filter, mem_known, decide_eq_true_eq]
  constructor
  · rintro ⟨⟨known, r⟩, ⟨⟨hr, hknown⟩, hle⟩, rfl⟩
    exact ⟨hr, known, hknown, hle⟩
  · rintro ⟨hr, known, hknown, hle⟩
    exact ⟨(known, r), ⟨⟨hr, hknown⟩, hle⟩, rfl⟩

end PointInTimeIndex

/-- The records known at or before `bound` are the same. -/
def SameUpTo (visibility : VisibilityRule) (bound : Instant) (l l' : List T) : Prop :=
  ∀ r known, (stamp r).knownAt visibility = some known → known ≤ bound → (r ∈ l ↔ r ∈ l')

theorem sameUpTo_iff : SameUpTo visibility bound l l' ↔
    (∀ r ∈ l, isVisible bound visibility r → r ∈ l') ∧
      ∀ r ∈ l', isVisible bound visibility r → r ∈ l := by
  simp only [SameUpTo, isVisible_iff]
  constructor
  · intro h
    exact ⟨fun r hr ⟨known, hknown, hle⟩ => (h r known hknown hle).mp hr,
      fun r hr ⟨known, hknown, hle⟩ => (h r known hknown hle).mpr hr⟩
  · rintro ⟨h, h'⟩ r known hknown hle
    exact ⟨fun hr => h r hr ⟨known, hknown, hle⟩, fun hr => h' r hr ⟨known, hknown, hle⟩⟩

theorem SameUpTo.filter (h : SameUpTo visibility bound l l') (p : T → Bool) :
    SameUpTo visibility bound (l.filter p) (l'.filter p) := by
  intro r known hknown hle
  rw [List.mem_filter, List.mem_filter, h r known hknown hle]

namespace SameUpTo

variable {once : Keyed (recordId : T → String) l} {once' : Keyed (recordId : T → String) l'}

theorem known_eq (h : SameUpTo visibility bound l l') (hle : asOf ≤ bound) :
    (PointInTimeIndex.build visibility l once).known.filter (fun e => e.1 ≤ asOf) =
      (PointInTimeIndex.build visibility l' once').known.filter fun e => e.1 ≤ asOf := by
  change (sortBy knowledge _).filter _ = (sortBy knowledge _).filter _
  rw [filter_sortBy (keyed_knowledge once), filter_sortBy (keyed_knowledge once')]
  refine sortBy_eq_of_mem_iff ((keyed_knowledge once).sublist List.filter_sublist)
    ((keyed_knowledge once').sublist List.filter_sublist) fun e => ?_
  simp only [List.mem_filter, mem_knownOf, decide_eq_true_eq]
  constructor
  · rintro ⟨⟨he, hknown⟩, hasOf⟩
    exact ⟨⟨(h e.2 e.1 hknown (hasOf.trans hle)).mp he, hknown⟩, hasOf⟩
  · rintro ⟨⟨he, hknown⟩, hasOf⟩
    exact ⟨⟨(h e.2 e.1 hknown (hasOf.trans hle)).mpr he, hknown⟩, hasOf⟩

theorem visibleAsOf_eq (h : SameUpTo visibility bound l l') (hle : asOf ≤ bound) :
    (PointInTimeIndex.build visibility l once).visibleAsOf asOf =
      (PointInTimeIndex.build visibility l' once').visibleAsOf asOf := by
  rw [PointInTimeIndex.visibleAsOf_eq, PointInTimeIndex.visibleAsOf_eq, h.known_eq hle]

end SameUpTo

end

/-! ## Vintages -/

inductive VintagePolicy where
  | asKnown
  | original
deriving DecidableEq

def ordering (r : T) : Instant ×ₗ List String ×ₗ ℤ :=
  toLex ((stamp r).observedAt, toLex (vintageKey r, revision r))

/-- One record of `latest_vintages`. -/
def takeVintage (best : Dict (List String) T) (r : T) : Dict (List String) T :=
  match best.get? (vintageKey r) with
  | none => best.set (vintageKey r) r
  | some found => if revision found < revision r then best.set (vintageKey r) r else best

def latestVintages (records : List T) : List T :=
  sortBy ordering (records.foldl takeVintage Dict.empty).values

def originalVintages (records : List T) : List T :=
  sortBy ordering (records.filter fun r => revision r = 0)

def chosen (policy : VintagePolicy) (records : List T) : List T :=
  match policy with
  | .asKnown => latestVintages records
  | .original => originalVintages records

/-- `max`, of a key: the first entry whose key is highest. -/
def maxBy {α κ : Type} [LinearOrder κ] (key : α → κ) : List α → Option α
  | [] => none
  | a :: l => some (l.foldl (fun best b => if key best < key b then b else best) a)

/-! ## Views -/

structure PointInTimeSelection (T : Type) where
  setVersion : SetVersion
  asOf : Instant
  visibility : VisibilityRule
  records : List T
  pending : ℕ
  unverified : ℕ

def grouped {κ : Type} [DecidableEq κ] (key : T → κ) (l : List T) : List (κ × List T) :=
  (l.map key).eraseDups.map fun k => (k, l.filter fun r => key r = k)

structure ObservationView (T : Type) where
  setVersion : SetVersion
  visibility : VisibilityRule
  index : PointInTimeIndex T
  series : List (List String × PointInTimeIndex T)
  figures : List (List String × List T)

namespace ObservationView

def of (set : ObservationSet T) (visibility : VisibilityRule) : ObservationView T where
  setVersion := set.version
  visibility := visibility
  index := .build visibility set.records set.agree.ids
  series := (sortBy id (set.records.map seriesKey).eraseDups).map fun key =>
    (key, .build visibility (set.records.filter fun r => seriesKey r = key)
      (set.agree.ids.sublist List.filter_sublist))
  figures :=
    grouped vintageKey (PointInTimeIndex.build visibility set.records set.agree.ids).records

variable (view : ObservationView T)

def seriesKeys : List (List String) := view.series.map Prod.fst

def select (asOf : Instant) : PointInTimeSelection T where
  setVersion := view.setVersion
  asOf := asOf
  visibility := view.visibility
  records := view.index.visibleAsOf asOf
  pending := view.index.records.length - (view.index.visibleAsOf asOf).length
  unverified := view.index.unverified.length

structure NoSeries where
  setVersion : SetVersion
  seriesKey : List String

/-- `_series` -/
def indexOf (key : List String) : Except NoSeries (PointInTimeIndex T) :=
  orRefuse (view.series.lookup key) ⟨view.setVersion, key⟩

def visibleInSeries (key : List String) (asOf : Instant) : Except NoSeries (List T) := do
  let index ← view.indexOf key
  .ok (index.visibleAsOf asOf)

def latestInSeries (key : List String) (asOf : Instant) (policy : VintagePolicy) :
    Except NoSeries (Option T) := do
  let visible ← view.visibleInSeries key asOf
  .ok (chosen policy visible).getLast?

/-- One record of `latest_timeline`: it displaces a record that comes before it. -/
def displace (policy : VintagePolicy) (best : Option T) (r : T) : Option T :=
  if policy = .original ∧ revision r ≠ 0 then best
  else if ∀ b ∈ best, ordering b < ordering r then some r
  else best

/-- One instant of `latest_timeline`, once its records are taken. -/
def appendChange (instant : Instant) (best : Option T) (timeline : List (Instant × T)) :
    List (Instant × T) :=
  match best with
  | none => timeline
  | some r =>
    if timeline.getLast?.map (fun e => recordId e.2) = some (recordId r) then timeline
    else timeline ++ [(instant, r)]

def latestTimeline (key : List String) (policy : VintagePolicy) :
    Except NoSeries (List (Instant × T)) := do
  let index ← view.indexOf key
  .ok (sweep (displace policy) appendChange index.known none [])

def pickVintage (policy : VintagePolicy) (candidates : List T) : Option T :=
  match policy with
  | .original => (candidates.filter fun r => revision r = 0).head?
  | .asKnown => maxBy revision candidates

def vintageAsOf (key : List String) (asOf : Instant) (policy : VintagePolicy) : Option T :=
  pickVintage policy (((view.figures.lookup key).getD []).filter (isVisible asOf view.visibility))

end ObservationView

/-! ## What a view reads -/

section
variable {α κ : Type} [LinearOrder κ] {key : α → κ}

theorem mem_of_maxBy {l : List α} {a : α} (h : maxBy key l = some a) : a ∈ l := by
  cases l with
  | nil => cases h
  | cons b l =>
    obtain rfl := Option.some.inj h
    clear h
    induction l generalizing b with
    | nil => exact List.mem_singleton_self b
    | cons c l ih =>
      rw [List.foldl_cons]
      split_ifs
      · exact List.mem_cons_of_mem _ (ih c)
      · rcases List.mem_cons.mp (ih b) with heq | hmem
        · rw [heq]
          exact List.mem_cons_self
        · exact List.mem_cons_of_mem _ (List.mem_cons_of_mem _ hmem)

end

theorem lookup_map {α κ : Type} [DecidableEq κ] [BEq κ] [LawfulBEq κ] (f : κ → α) (k : κ) : ∀ keys : List κ,
    (keys.map fun k => (k, f k)).lookup k = if k ∈ keys then some (f k) else none
  | [] => rfl
  | j :: keys => by
    rw [List.map_cons, List.lookup_cons, lookup_map f k keys]
    by_cases h : k = j
    · subst h
      simp
    · simp [h, beq_eq_false_iff_ne.mpr h]

omit [SetRecord T] in
theorem lookup_grouped {κ : Type} [DecidableEq κ] [BEq κ] [LawfulBEq κ] (key : T → κ) (l : List T) (k : κ) :
    ((grouped key l).lookup k).getD [] = l.filter fun r => key r = k := by
  rw [grouped, lookup_map (fun k => l.filter fun r => key r = k)]
  split_ifs with hmem
  · rfl
  · refine (List.filter_eq_nil_iff.mpr fun r hr hkey => hmem ?_).symm
    rw [@List.mem_eraseDups _ instBEqOfDecidableEq]
    exact List.mem_map.mpr ⟨r, hr, of_decide_eq_true hkey⟩

theorem mem_of_latestVintages {l : List T} {r : T} (h : r ∈ latestVintages l) : r ∈ l := by
  have hfold : ∀ {l : List T} {best : Dict (List String) T} {r : T},
      r ∈ (l.foldl takeVintage best).values → r ∈ best.values ∨ r ∈ l := by
    intro l
    induction l with
    | nil => exact Or.inl
    | cons a l ih =>
      intro best r h
      rcases ih h with hbest | hl
      · have htaken : r = a ∨ r ∈ best.values := by
          unfold takeVintage at hbest
          split at hbest
          · exact Dict.mem_values_of_set hbest
          · split_ifs at hbest
            · exact Dict.mem_values_of_set hbest
            · exact Or.inr hbest
        rcases htaken with rfl | hbest
        · exact Or.inr List.mem_cons_self
        · exact Or.inl hbest
      · exact Or.inr (List.mem_cons_of_mem _ hl)
  rcases hfold (mem_sortBy.mp h) with hnone | hl
  · cases hnone
  · exact hl

theorem mem_of_chosen {policy : VintagePolicy} {l : List T} {r : T} (h : r ∈ chosen policy l) :
    r ∈ l := by
  cases policy with
  | asKnown => exact mem_of_latestVintages h
  | original => exact (List.mem_filter.mp (mem_sortBy.mp h)).1

theorem mem_of_pickVintage {policy : VintagePolicy} {l : List T} {r : T}
    (h : ObservationView.pickVintage policy l = some r) : r ∈ l := by
  cases policy with
  | asKnown => exact mem_of_maxBy h
  | original => exact (List.mem_filter.mp (List.mem_of_head? h)).1

namespace ObservationView

variable (set : ObservationSet T) (visibility : VisibilityRule) (key : List String)

def seriesIndex : PointInTimeIndex T :=
  .build visibility (set.records.filter fun r => seriesKey r = key)
    (set.agree.ids.sublist List.filter_sublist)

variable {set visibility key}

theorem seriesKeys_of :
    (of set visibility).seriesKeys = sortBy id (set.records.map seriesKey).eraseDups := by
  rw [seriesKeys, of, List.map_map]
  exact List.map_id _

theorem mem_seriesKeys :
    key ∈ (of set visibility).seriesKeys ↔ ∃ r ∈ set.records, seriesKey r = key := by
  rw [seriesKeys_of, mem_sortBy, List.mem_eraseDups, List.mem_map]

theorem indexOf_eq (h : key ∈ (of set visibility).seriesKeys) :
    (of set visibility).indexOf key = .ok (seriesIndex set visibility key) := by
  rw [indexOf, orRefuse_ok]
  rw [seriesKeys_of] at h
  exact (lookup_map (seriesIndex set visibility) key _).trans (if_pos h)

theorem visibleInSeries_eq (h : key ∈ (of set visibility).seriesKeys) (asOf : Instant) :
    (of set visibility).visibleInSeries key asOf =
      .ok ((seriesIndex set visibility key).visibleAsOf asOf) := by
  rw [visibleInSeries, indexOf_eq h]
  rfl

theorem mem_visible_series {asOf : Instant} {r : T} :
    r ∈ (seriesIndex set visibility key).visibleAsOf asOf ↔
      r ∈ set.records ∧ seriesKey r = key ∧ isVisible asOf visibility r := by
  rw [seriesIndex, PointInTimeIndex.mem_visibleAsOf, List.mem_filter, decide_eq_true_eq, and_assoc]

theorem vintageAsOf_eq (asOf : Instant) (policy : VintagePolicy) :
    (of set visibility).vintageAsOf key asOf policy = pickVintage policy
      (((of set visibility).index.visibleAsOf asOf).filter fun r => vintageKey r = key) := by
  have hvisible : (of set visibility).index.records.filter (isVisible asOf visibility) =
      (of set visibility).index.visibleAsOf asOf := by
    rw [PointInTimeIndex.visibleAsOf_eq, PointInTimeIndex.records, List.filter_map]
    refine congrArg _ (List.filter_congr fun e he => ?_)
    obtain ⟨-, hknown⟩ := (PointInTimeIndex.mem_known (h := set.agree.ids)).mp he
    simp [isVisible, PointInTimeStamp.isVisible, hknown]
  have hlookup : ((of set visibility).figures.lookup key).getD [] =
      (of set visibility).index.records.filter fun r => vintageKey r = key := lookup_grouped _ _ _
  rw [vintageAsOf, hlookup, ← hvisible, List.filter_filter, List.filter_filter]
  refine congrArg _ (List.filter_congr fun r _ => ?_)
  rw [Bool.and_comm]
  rfl

end ObservationView

end AlphaLab
