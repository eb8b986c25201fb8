/-
  A stream and a set accept the same records.

  The stream holds each arrival against every revision of its figure, the set holds each
  revision against its neighbour only.

  * `accepts_alike_iff`: they accept the same records, and every restriction of an accepted set
    is accepted, exactly where there are records and no inversion is hidden from the
    neighbours.
-/
import AlphaLab.AltData.Arrivals
import AlphaLab.AltData.FundamentalRecords

namespace AlphaLab

open Fallible SetRecord ObservationStream

variable {T : Type} [SetRecord T]

/-- Records that agree, with each revision no earlier than its neighbour, and one earlier than
    another before it. -/
def HiddenInversion (source : ObservationSource) (l : List T) : Prop :=
  Agree source l ∧ NeighboursInTime l ∧ ¬ AllInTime l

section
variable {source : ObservationSource} {l l' : List T}

theorem AllInTime.perm (hperm : l.Perm l') : AllInTime l ↔ AllInTime l' :=
  ⟨fun h => h.of_subset hperm.symm.subset, fun h => h.of_subset hperm.subset⟩

end

namespace ObservationSet

variable {set kept : ObservationSet T} {r : Restriction} {detail : String}

theorem restrict_fields (h : set.restrict r detail = .ok kept) :
    kept.source = set.source ∧ kept.records = sortBy position (set.records.filter r.keeps) := by
  rw [restrict, restricted] at h
  split at h
  · cases h
  · obtain ⟨-, hsource, hrecords, -⟩ := derive_fields h
    exact ⟨hsource, hrecords⟩

theorem restrict_accepted (htime : AllInTime set.records) (hkeeps : set.records.filter r.keeps ≠ []) :
    ∃ kept, set.restrict r detail = .ok kept := by
  have hsub : List.Sublist (set.records.filter r.keeps) set.records := List.filter_sublist
  have hagree := set.agree.sublist hsub
  rw [restrict, restricted, dif_neg hkeeps]
  exact derive_iff.mpr ⟨hkeeps, hagree, (htime.of_subset hsub.subset).neighboursInTime hagree⟩

inductive Restricted (set : ObservationSet T) : ObservationSet T → Prop where
  | whole : Restricted set set
  | restrict {kept kept' : ObservationSet T} {r : Restriction} {detail : String} :
      Restricted set kept → kept.restrict r detail = .ok kept' → Restricted set kept'

theorem Restricted.subset (h : Restricted set kept) : kept.records ⊆ set.records := by
  induction h with
  | whole => exact List.Subset.refl _
  | restrict _ hkept ih =>
    rw [(restrict_fields hkept).2]
    exact fun a ha => ih (List.mem_filter.mp (mem_sortBy.mp ha)).1

end ObservationSet

/-- A stream and a set accept the records alike: in every order and in any number of calls,
    with the same set, whose restrictions are accepted where they keep records. -/
structure AcceptedAlike (name : SetName) (source : ObservationSource) (l : List T) : Prop where
  accepts : ∀ calls : List (List T), calls.flatten.Perm l →
    ((∃ stream, appendAll calls («open» name source) = .ok stream) ↔
      ∃ set, buildObservationSet name l source = .ok set)
  same : ∀ calls : List (List T), calls.flatten.Perm l → ∀ stream,
    appendAll calls («open» name source) = .ok stream →
      stream.toSet = buildObservationSet name l source
  restrictions : ∀ set, buildObservationSet name l source = .ok set →
    ∀ kept, set.Restricted kept → ∀ (r : ObservationSet.Restriction) (detail : String),
      kept.records.filter r.keeps ≠ [] → ∃ kept', kept.restrict r detail = .ok kept'

section
variable (name : SetName) (source : ObservationSource) (l : List T)

theorem appendAll_open_iff (calls : List (List T)) :
    (∃ stream, appendAll calls («open» name source) = .ok stream) ↔
      Agree source calls.flatten ∧ AllInTime calls.flatten := by
  rw [appendAll_eq]
  exact (indexed_open name source).append_iff

theorem toSet_of_appendAll {calls : List (List T)} {stream : ObservationStream T}
    (hperm : calls.flatten.Perm l) (h : appendAll calls («open» name source) = .ok stream) :
    stream.toSet = buildObservationSet name l source := by
  have hagree := ((appendAll_open_iff name source calls).mp ⟨stream, h⟩).1
  rw [appendAll_eq] at h
  obtain ⟨-, hrecords, hname, hsource⟩ := (indexed_open name source).append_spec h
  rw [toSet, hrecords, hname, hsource]
  exact ObservationSet.derive_perm hperm hagree.ids

/-- **A stream and a set accept the same records** exactly where there are records and no
    inversion is hidden from the neighbours. -/
theorem accepts_alike_iff : AcceptedAlike name source l ↔ l ≠ [] ∧ ¬ HiddenInversion source l := by
  have hbuild : (∃ set, buildObservationSet name l source = .ok set) ↔
      l ≠ [] ∧ Agree source l ∧ NeighboursInTime l := ObservationSet.derive_iff
  constructor
  · intro h
    have hne : l ≠ [] := by
      rintro rfl
      exact (hbuild.mp ((h.accepts [] .nil).mp ⟨_, rfl⟩)).1 rfl
    refine ⟨hne, fun ⟨hagree, hneighbours, htime⟩ => htime ?_⟩
    have haccepted := (h.accepts [l] (by simp)).mpr (hbuild.mpr ⟨hne, hagree, hneighbours⟩)
    simpa using ((appendAll_open_iff name source [l]).mp haccepted).2
  · rintro ⟨hne, hhidden⟩
    have htime : Agree source l → NeighboursInTime l → AllInTime l :=
      fun hagree hneighbours => not_not.mp fun hnot => hhidden ⟨hagree, hneighbours, hnot⟩
    refine ⟨fun calls hperm => ?_, fun calls hperm stream => toSet_of_appendAll name source l hperm,
      fun set hset kept hkept r detail hkeeps => ?_⟩
    · rw [appendAll_open_iff, hbuild, AllInTime.perm hperm]
      constructor
      · rintro ⟨hagree, hall⟩
        have hagree' := hagree.perm hperm
        exact ⟨hne, hagree', hall.neighboursInTime hagree'⟩
      · rintro ⟨-, hagree, hneighbours⟩
        exact ⟨hagree.perm hperm.symm, htime hagree hneighbours⟩
    · obtain ⟨-, hagree, hneighbours⟩ := hbuild.mp ⟨set, hset⟩
      obtain ⟨-, -, hrecords, -⟩ := ObservationSet.derive_fields hset
      refine ObservationSet.restrict_accepted ((htime hagree hneighbours).of_subset ?_) hkeeps
      exact fun a ha => (mem_sortBy.mp (hrecords ▸ hkept.subset ha))

end

/-- A figure, a restatement of it that nobody dated, and one that is available first. -/
def undatedBetween : List FundamentalObservation :=
  [revenueRestated 0 (some 10) "a", revenueRestated 1 none "b", revenueRestated 2 (some 5) "c"]

def undatedSet : ObservationSet FundamentalObservation where
  name := filingsName
  kind := "alphalab.fundamental.v1"
  source := ⟨"filings", none, none, none⟩
  records := undatedBetween
  parentVersion := none
  transformations := []
  checked := by decide +kernel

/-- **A revision of unknown availability hides an inversion**: a set is made of the records, a
    stream refuses them, and what is known of them at an instant is refused as well. -/
theorem unknown_revision_hides_inversion :
    buildObservationSet undatedSet.name undatedBetween undatedSet.source = .ok undatedSet ∧
      (¬ ∃ stream, appendAll [undatedBetween] («open» undatedSet.name undatedSet.source) =
        .ok stream) ∧
      undatedSet.records.filter (ObservationSet.Restriction.keeps (.knownBy 10 .publication)) ≠ [] ∧
      ¬ ∃ kept, undatedSet.restrict (.knownBy 10 .publication) "" = .ok kept := by
  refine ⟨ObservationSet.derive_eq (by decide +kernel) undatedSet.checked, ?_, by decide +kernel, ?_⟩
  · rw [appendAll_open_iff]
    rintro ⟨-, htime⟩
    revert htime
    unfold AllInTime
    decide +kernel
  · rw [ObservationSet.restrict, ObservationSet.restricted, dif_neg (by decide +kernel),
      ObservationSet.derive_iff]
    rintro ⟨-, -, hneighbours⟩
    revert hneighbours
    unfold NeighboursInTime
    decide +kernel

end AlphaLab
