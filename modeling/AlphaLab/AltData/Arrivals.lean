/-
  Which records a stream accepts.

  * `Indexed`: what a stream keeps beside its records is what its records say.
-/
import AlphaLab.AltData.Acceptance

namespace AlphaLab

open Fallible SetRecord

variable {T : Type} [SetRecord T]

section
variable {l : List T} {r : T} {source : ObservationSource}

theorem agree_concat : Agree source (l ++ [r]) ↔ Agree source l ∧
    (∀ a ∈ l, recordScheme a = recordScheme r) ∧ SetRecord.source r = source ∧
      (∀ a ∈ l, recordId a ≠ recordId r) ∧ ∀ a ∈ l, ¬ SameClaim a r := by
  have hlast : r ∈ l ++ [r] := List.mem_append_right _ (List.mem_singleton_self r)
  constructor
  · intro h
    have hids := h.ids
    rw [Keyed, List.map_append, List.map_singleton, List.nodup_append] at hids
    refine ⟨h.sublist (List.sublist_append_left l [r]), ?_, h.sources r hlast, ?_, ?_⟩
    · exact fun a ha => h.kinds a (List.mem_append_left _ ha) r hlast
    · exact fun a ha => hids.2.2 _ (List.mem_map_of_mem ha) _ (List.mem_singleton_self _)
    · exact fun a ha => (List.pairwise_append.mp h.claims).2.2 a ha r (List.mem_singleton_self r)
  · rintro ⟨h, hkind, hsource, hid, hclaim⟩
    refine ⟨?_, ?_, ?_, ?_⟩
    · simp only [List.mem_append, List.mem_singleton]
      rintro a (ha | rfl) b (hb | rfl)
      · exact h.kinds a ha b hb
      · exact hkind a ha
      · exact (hkind b hb).symm
      · rfl
    · simp only [List.mem_append, List.mem_singleton]
      rintro a (ha | rfl)
      · exact h.sources a ha
      · exact hsource
    · rw [Keyed, List.map_append, List.map_singleton, List.nodup_append]
      refine ⟨h.ids, List.nodup_singleton _, ?_⟩
      rintro _ hmem _ hlast
      obtain ⟨a, ha, rfl⟩ := List.mem_map.mp hmem
      exact List.mem_singleton.mp hlast ▸ hid a ha
    · refine List.pairwise_append.mpr ⟨h.claims, List.pairwise_singleton _ _, fun a ha b hb => ?_⟩
      exact List.mem_singleton.mp hb ▸ hclaim a ha

theorem allInTime_concat : AllInTime (l ++ [r]) ↔ AllInTime l ∧ ∀ a ∈ l, SameFigure a r →
    (revision a < revision r → InTime a r) ∧ (revision r < revision a → InTime r a) := by
  have hlast : r ∈ l ++ [r] := List.mem_append_right _ (List.mem_singleton_self r)
  constructor
  · intro h
    refine ⟨h.of_subset (List.subset_append_left l [r]), fun a ha hfigure => ⟨?_, ?_⟩⟩
    · exact h a (List.mem_append_left _ ha) r hlast hfigure
    · exact h r hlast a (List.mem_append_left _ ha) (Eq.symm hfigure)
  · rintro ⟨h, hnew⟩
    simp only [AllInTime, List.mem_append, List.mem_singleton]
    rintro a (ha | rfl) b (hb | rfl) hfigure hlt
    · exact h a ha b hb hfigure hlt
    · exact (hnew a ha hfigure).1 hlt
    · exact (hnew b hb (Eq.symm hfigure)).2 hlt
    · exact absurd hlt (lt_irrefl _)

end

namespace ObservationStream

/-! ## What a stream keeps -/

/-- What a stream keeps beside its records is what its records say, and they are in order. -/
structure Indexed (s : ObservationStream T) : Prop where
  kind : s.kind = s.records.head?.map recordScheme
  ids : ∀ id, s.ids.get? id = none ↔ ∀ r ∈ s.records, recordId r ≠ id
  revisions : ∀ figure number available,
    ((s.vintages.get? figure).getD .empty).get? number = some available ↔
      ∃ r ∈ s.records, vintageKey r = figure ∧ revision r = number ∧ availableAt r = available
  agree : Agree s.source s.records
  inTime : AllInTime s.records

variable {s t : ObservationStream T} {r : T} {l : List T}

theorem indexed_open (name : SetName) (source : ObservationSource) :
    Indexed («open» name source : ObservationStream T) where
  kind := rfl
  ids := by simp [«open»]
  revisions := by simp [«open»]
  agree := ⟨by simp [«open»], by simp [«open»], by simp [«open», Keyed], by simp [«open»]⟩
  inTime := by simp [«open», AllInTime]

namespace Indexed

variable (h : Indexed s)
include h

theorem kind_iff : (∀ kind ∈ s.kind, recordScheme r = kind) ↔
    ∀ a ∈ s.records, recordScheme a = recordScheme r := by
  rw [h.kind]
  have hkinds := h.agree.kinds
  cases hrecords : s.records with
  | nil => simp
  | cons first later =>
    rw [hrecords] at hkinds
    simp only [List.head?_cons, Option.map_some, Option.mem_some, forall_eq']
    constructor
    · exact fun hr a ha => (hkinds a ha first List.mem_cons_self).trans hr.symm
    · exact fun hall => (hall first List.mem_cons_self).symm

theorem unclaimed_iff : (s.revisionsHeld r).get? (revision r) = none ↔
    ∀ a ∈ s.records, ¬ SameClaim a r := by
  rw [Option.eq_none_iff_forall_ne_some, revisionsHeld]
  constructor
  · rintro hnone a ha ⟨hfigure, hrevision⟩
    exact hnone _ ((h.revisions _ _ _).mpr ⟨a, ha, hfigure, hrevision, rfl⟩)
  · rintro hall available hsome
    obtain ⟨a, ha, hfigure, hrevision, -⟩ := (h.revisions _ _ _).mp hsome
    exact hall a ha ⟨hfigure, hrevision⟩

theorem inTime_iff : (∀ available ∈ availableAt r, ∀ e ∈ (s.revisionsHeld r).entries,
      ∀ other ∈ e.2, (e.1 < revision r → other ≤ available) ∧
        (revision r < e.1 → available ≤ other)) ↔
    ∀ a ∈ s.records, SameFigure a r →
      (revision a < revision r → InTime a r) ∧ (revision r < revision a → InTime r a) := by
  constructor
  · intro hall a ha hfigure
    have hentry : (revision a, availableAt a) ∈ (s.revisionsHeld r).entries :=
      (Dict.get?_eq_some _).mp ((h.revisions _ _ _).mpr ⟨a, ha, hfigure, rfl, rfl⟩)
    exact ⟨fun hlt x hx y hy => (hall y hy _ hentry x hx).1 hlt,
      fun hlt x hx y hy => (hall x hx _ hentry y hy).2 hlt⟩
  · rintro hall available havailable ⟨number, held⟩ hentry other hother
    obtain ⟨a, ha, hfigure, rfl, rfl⟩ := (h.revisions _ _ _).mp ((Dict.get?_eq_some _).mpr hentry)
    have hneighbour := hall a ha hfigure
    exact ⟨fun hlt => hneighbour.1 hlt other hother available havailable,
      fun hlt => hneighbour.2 hlt available havailable other hother⟩

/-- **A record arrives where it goes with those that are held.** -/
theorem arrive_iff : (∃ t, s.arrive r = .ok t) ↔
    Agree s.source (s.records ++ [r]) ∧ AllInTime (s.records ++ [r]) := by
  have hids : s.ids.get? (recordId r) = none ↔ ∀ a ∈ s.records, recordId a ≠ recordId r := h.ids _
  simp only [arrive, checkArrival, bind_ok, require_ok, ok_inj, agree_concat, allInTime_concat,
    h.kind_iff, hids, h.unclaimed_iff, h.inTime_iff, exists_and_left, exists_eq', exists_const,
    and_true]
  constructor
  · rintro ⟨hkind, hsource, hid, hclaim, htime⟩
    exact ⟨⟨h.agree, hkind, hsource, hid, hclaim⟩, h.inTime, htime⟩
  · rintro ⟨⟨-, hkind, hsource, hid, hclaim⟩, -, htime⟩
    exact ⟨hkind, hsource, hid, hclaim, htime⟩

theorem arrive_spec (ht : s.arrive r = .ok t) : Indexed t ∧ t.records = s.records ++ [r] ∧
    t.name = s.name ∧ t.source = s.source := by
  obtain ⟨hagree, htime⟩ := h.arrive_iff.mp ⟨t, ht⟩
  have hclaim := (agree_concat.mp hagree).2.2.2.2
  simp only [arrive, bind_ok, ok_inj] at ht
  obtain ⟨_, -, _, -, _, -, _, -, rfl⟩ := ht
  refine ⟨⟨?_, ?_, ?_, hagree, htime⟩, rfl, rfl, rfl⟩
  · rw [h.kind]
    cases s.records <;> rfl
  · intro id
    rw [Dict.get?_set]
    by_cases hid : id = recordId r
    · subst hid
      simp
    · rw [if_neg hid, h.ids]
      simp only [List.mem_append, List.mem_singleton]
      refine ⟨?_, fun hall a ha => hall a (Or.inl ha)⟩
      rintro hall a (ha | rfl)
      · exact hall a ha
      · exact Ne.symm hid
  · intro figure number available
    simp only [List.mem_append, List.mem_singleton, or_and_right, exists_or, exists_eq_left]
    rw [Dict.get?_set]
    by_cases hfigure : figure = vintageKey r
    · subst hfigure
      rw [if_pos rfl, Option.getD_some, Dict.get?_set]
      by_cases hnumber : number = revision r
      · subst hnumber
        rw [if_pos rfl, Option.some.injEq]
        refine ⟨fun heq => Or.inr ⟨rfl, rfl, heq⟩, ?_⟩
        rintro (⟨a, ha, hfigure, hrevision, -⟩ | ⟨-, -, heq⟩)
        · exact absurd ⟨hfigure, hrevision⟩ (hclaim a ha)
        · exact heq
      · rw [if_neg hnumber, revisionsHeld, h.revisions]
        exact ⟨Or.inl, fun hor => hor.resolve_right fun hr => hnumber hr.2.1.symm⟩
    · rw [if_neg hfigure, h.revisions]
      exact ⟨Or.inl, fun hor => hor.resolve_right fun hr => hfigure hr.1.symm⟩

end Indexed

/-- **Records that are accepted are held after those before them.** -/
theorem Indexed.append_spec : ∀ {l : List T} {s t : ObservationStream T}, Indexed s →
    s.append l = .ok t → Indexed t ∧ t.records = s.records ++ l ∧ t.name = s.name ∧
      t.source = s.source
  | [], s, t, h, ht => by
    obtain rfl : s = t := pure_ok.mp ht
    exact ⟨h, by simp, rfl, rfl⟩
  | r :: l, s, t, h, ht => by
    rw [append, List.foldlM_cons, bind_ok] at ht
    obtain ⟨u, hu, hut⟩ := ht
    obtain ⟨hindexed, hrecords, hname, hsource⟩ := h.arrive_spec hu
    obtain ⟨hindexed', hrecords', hname', hsource'⟩ := hindexed.append_spec hut
    refine ⟨hindexed', ?_, hname'.trans hname, hsource'.trans hsource⟩
    rw [hrecords', hrecords, List.append_assoc, List.singleton_append]

/-- **A stream accepts records that agree, and whose revisions are all in time.** -/
theorem Indexed.append_iff : ∀ {l : List T} {s : ObservationStream T}, Indexed s →
    ((∃ t, s.append l = .ok t) ↔ Agree s.source (s.records ++ l) ∧ AllInTime (s.records ++ l))
  | [], s, h => by
    rw [List.append_nil]
    exact ⟨fun _ => ⟨h.agree, h.inTime⟩, fun _ => ⟨s, rfl⟩⟩
  | r :: l, s, h => by
    have hassoc : s.records ++ r :: l = (s.records ++ [r]) ++ l := by simp
    rw [append, List.foldlM_cons]
    simp only [bind_ok]
    constructor
    · rintro ⟨t, u, hu, hut⟩
      obtain ⟨hindexed, hrecords, -, hsource⟩ := h.arrive_spec hu
      have := hindexed.append_iff.mp ⟨t, hut⟩
      rwa [hrecords, hsource, ← hassoc] at this
    · rintro ⟨hagree, htime⟩
      have hsub : List.Sublist (s.records ++ [r]) (s.records ++ r :: l) :=
        hassoc ▸ List.sublist_append_left _ l
      obtain ⟨u, hu⟩ := h.arrive_iff.mpr ⟨hagree.sublist hsub, htime.of_subset hsub.subset⟩
      obtain ⟨hindexed, hrecords, -, hsource⟩ := h.arrive_spec hu
      obtain ⟨t, ht⟩ := hindexed.append_iff.mpr
        (show Agree u.source (u.records ++ l) ∧ AllInTime (u.records ++ l) by
          rw [hrecords, hsource, ← hassoc]
          exact ⟨hagree, htime⟩)
      exact ⟨t, u, hu, ht⟩

/-- Calls of `append`, one after the other. -/
def appendAll (calls : List (List T)) (s : ObservationStream T) :
    Except SetRefusal (ObservationStream T) := calls.foldlM append s

theorem appendAll_eq : ∀ (calls : List (List T)) (s : ObservationStream T),
    appendAll calls s = s.append calls.flatten
  | [], s => rfl
  | call :: calls, s => by
    rw [appendAll, List.foldlM_cons, List.flatten_cons, append, append, List.foldlM_append]
    exact bind_congr fun t => appendAll_eq calls t

end ObservationStream

end AlphaLab
