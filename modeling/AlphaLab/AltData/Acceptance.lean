/-
  Which records make a set.

  * `derive_perm`: the order they are given in does not matter.
-/
import AlphaLab.AltData.ObservationSet

namespace AlphaLab

open Fallible SetRecord

variable {T : Type} [SetRecord T]

/-! ## What records must be -/

/-- Records of one kind and source, each once, that claim each revision once. -/
structure Agree (source : ObservationSource) (l : List T) : Prop where
  kinds : ∀ a ∈ l, ∀ b ∈ l, recordScheme a = recordScheme b
  sources : ∀ r ∈ l, SetRecord.source r = source
  ids : Keyed (recordId : T → String) l
  claims : l.Pairwise fun a b => ¬ SameClaim a b

def NeighboursInTime (l : List T) : Prop :=
  ∀ r ∈ l, (revisionsOf l (vintageKey r)).IsChain InTime

/-- Each revision is available no earlier than every revision before it. -/
def AllInTime (l : List T) : Prop :=
  ∀ a ∈ l, ∀ b ∈ l, SameFigure a b → revision a < revision b → InTime a b

section
variable {l l' : List T} {source : ObservationSource}

theorem SameClaim.symm {a b : T} (h : SameClaim a b) : SameClaim b a :=
  ⟨Eq.symm h.1, h.2.symm⟩

theorem Agree.perm (h : Agree source l) (hperm : l.Perm l') : Agree source l' where
  kinds a ha b hb := h.kinds a (hperm.mem_iff.mpr ha) b (hperm.mem_iff.mpr hb)
  sources r hr := h.sources r (hperm.mem_iff.mpr hr)
  ids := h.ids.perm hperm
  claims := (hperm.pairwise_iff fun hnot hclaim => hnot hclaim.symm).mp h.claims

theorem Agree.sublist (h : Agree source l) (hsub : List.Sublist l' l) : Agree source l' where
  kinds a ha b hb := h.kinds a (hsub.subset ha) b (hsub.subset hb)
  sources r hr := h.sources r (hsub.subset hr)
  ids := h.ids.sublist hsub
  claims := h.claims.sublist hsub

theorem AllInTime.of_subset (h : AllInTime l) (hsub : l' ⊆ l) : AllInTime l' :=
  fun a ha b hb => h a (hsub ha) b (hsub hb)

theorem Agree.keyed_figure (h : Agree source l) (figure : List String) :
    Keyed (revision : T → ℤ) (l.filter fun r => vintageKey r = figure) := by
  have hclaims := h.claims.sublist (List.filter_sublist (p := fun r => vintageKey r = figure))
  refine List.pairwise_map.mpr (hclaims.imp_of_mem fun {a b} ha hb hnot hsame => hnot ⟨?_, hsame⟩)
  have hfigure : ∀ r ∈ l.filter (fun r => vintageKey r = figure), vintageKey r = figure :=
    fun r hr => of_decide_eq_true (List.mem_filter.mp hr).2
  exact (hfigure a ha).trans (hfigure b hb).symm

theorem Agree.revisionsOf_perm (h : Agree source l) (hperm : l.Perm l') (figure : List String) :
    revisionsOf l figure = revisionsOf l' figure :=
  sortBy_eq_of_perm (h.keyed_figure figure) (hperm.filter _)

theorem Agree.neighboursInTime_perm (h : Agree source l) (hperm : l.Perm l') :
    NeighboursInTime l ↔ NeighboursInTime l' := by
  simp only [NeighboursInTime, h.revisionsOf_perm hperm, hperm.mem_iff]

theorem AllInTime.neighboursInTime (hagree : Agree source l) (h : AllInTime l) :
    NeighboursInTime l := by
  intro r _
  refine List.Pairwise.isChain ?_
  have hkeyed := (hagree.keyed_figure (vintageKey r)).perm (sortBy_perm revision _).symm
  refine ((sortBy_sorted revision _).and (List.pairwise_map.mp hkeyed)).imp_of_mem ?_
  rintro a b ha hb ⟨hle, hne⟩
  rw [mem_sortBy, List.mem_filter, decide_eq_true_eq] at ha hb
  exact h a ha.1 b hb.1 (ha.2.trans hb.2.symm) (lt_of_le_of_ne hle hne)

/-! ## Sets -/

theorem checkClaims_ok : ∀ {earlier l : List T} {u : Unit}, checkClaims earlier l = .ok u ↔
    (∀ e ∈ earlier, ∀ r ∈ l, ¬ SameClaim e r) ∧ l.Pairwise fun a b => ¬ SameClaim a b
  | earlier, [], u => by simp [checkClaims]
  | earlier, r :: later, u => by
    rw [checkClaims, bind_ok]
    simp only [require_ok, checkClaims_ok, List.pairwise_cons, List.mem_append, List.mem_cons]
    constructor
    · rintro ⟨-, hr, hlater, hpairwise⟩
      refine ⟨?_, fun b hb => hlater r (Or.inr (Or.inl rfl)) b hb, hpairwise⟩
      rintro e he b (rfl | hb)
      · exact hr e he
      · exact hlater e (Or.inl he) b hb
    · rintro ⟨hearlier, hr, hpairwise⟩
      refine ⟨(), fun e he => hearlier e he r (Or.inl rfl), ?_, hpairwise⟩
      rintro e (he | he) b hb
      · exact hearlier e he b (Or.inr hb)
      · obtain rfl : e = r := by simpa using he
        exact hr b hb

theorem checkNeighbours_ok : ∀ {l : List T} {u : Unit},
    checkNeighbours l = .ok u ↔ l.IsChain InTime
  | [], _ => by simp [checkNeighbours]
  | [a], _ => by simp [checkNeighbours]
  | a :: b :: later, u => by
    rw [checkNeighbours, bind_ok, List.isChain_cons_cons]
    simp only [require_ok, checkNeighbours_ok, exists_and_left, exists_const]

theorem forM_ok {α ε : Type} {f : α → Except ε Unit} {l : List α} {u : Unit} :
    l.forM f = .ok u ↔ ∀ a ∈ l, f a = .ok () := by
  induction l with
  | nil => simp [List.forM, pure, Except.pure]
  | cons a l ih =>
    change (f a >>= fun _ => l.forM f) = .ok u ↔ _
    rw [bind_ok]
    constructor
    · rintro ⟨⟨⟩, ha, hl⟩ b hb
      rcases List.mem_cons.mp hb with rfl | hb
      · exact ha
      · exact ih.mp hl b hb
    · intro h
      exact ⟨(), h a List.mem_cons_self, ih.mpr fun b hb => h b (List.mem_cons_of_mem _ hb)⟩

theorem checkVintages_ok {u : Unit} : checkVintages l = .ok u ↔
    (l.Pairwise fun a b => ¬ SameClaim a b) ∧ NeighboursInTime l := by
  rw [checkVintages, bind_ok]
  simp only [checkClaims_ok, forM_ok, checkNeighbours_ok, List.mem_eraseDups, List.mem_map,
    List.not_mem_nil, false_implies, implies_true, true_and, exists_and_left, exists_const,
    NeighboursInTime, forall_exists_index, and_imp, forall_apply_eq_imp_iff₂]

theorem checkRecords_ok {kind : String} : ∀ {l : List T} {seen : List String}
    {previous : Option (Instant ×ₗ String)} {u : Unit},
    checkRecords kind source l seen previous = .ok u ↔
      (∀ r ∈ l, recordScheme r = kind ∧ SetRecord.source r = source) ∧
      Keyed (recordId : T → String) l ∧ (∀ r ∈ l, recordId r ∉ seen) ∧
      (∀ p ∈ previous, ∀ r ∈ l, p ≤ position r) ∧
      l.Pairwise fun a b => position a ≤ position b
  | [], seen, previous, u => by simp [checkRecords, Keyed]
  | r :: later, seen, previous, u => by
    rw [checkRecords, bind_ok]
    simp only [bind_ok, require_ok, checkRecords_ok, exists_and_left, exists_const, Option.mem_some,
      forall_eq', List.forall_mem_cons, List.pairwise_cons, Keyed, List.map_cons, List.nodup_cons,
      List.mem_append, List.mem_singleton, not_or, List.mem_map, not_exists, not_and]
    constructor
    · rintro ⟨hkind, hsource, hseen, hprevious, hall, hkeyed, hnew, hafter, hpairwise⟩
      refine ⟨⟨⟨hkind, hsource⟩, hall⟩, ⟨fun b hb => (hnew b hb).2, hkeyed⟩,
        ⟨hseen, fun b hb => (hnew b hb).1⟩, fun p hp => ⟨hprevious p hp, fun b hb => ?_⟩,
        hafter, hpairwise⟩
      exact (hprevious p hp).trans (hafter b hb)
    · rintro ⟨⟨⟨hkind, hsource⟩, hall⟩, ⟨hother, hkeyed⟩, ⟨hseen, hnew⟩, hprevious, hafter,
        hpairwise⟩
      exact ⟨hkind, hsource, hseen, fun p hp => (hprevious p hp).1, hall, hkeyed,
        fun b hb => ⟨hnew b hb, hother b hb⟩, hafter, hpairwise⟩

theorem checkSet_ok {kind : String} {u : Unit} : checkSet kind source l = .ok u ↔
    l ≠ [] ∧ (∀ r ∈ l, recordScheme r = kind) ∧ Agree source l ∧ NeighboursInTime l ∧
      l.Pairwise fun a b => position a ≤ position b := by
  rw [checkSet, bind_ok]
  simp only [bind_ok, require_ok, checkRecords_ok, checkVintages_ok, exists_and_left, exists_const,
    List.not_mem_nil, not_false_eq_true, implies_true, Option.not_mem_none, false_implies, true_and]
  constructor
  · rintro ⟨hne, ⟨hall, hkeyed, hsorted⟩, hclaims, hneighbours⟩
    refine ⟨hne, fun r hr => (hall r hr).1, ⟨fun a ha b hb => ?_, fun r hr => (hall r hr).2, hkeyed,
      hclaims⟩, hneighbours, hsorted⟩
    rw [(hall a ha).1, (hall b hb).1]
  · rintro ⟨hne, hkind, hagree, hneighbours, hsorted⟩
    exact ⟨hne, ⟨fun r hr => ⟨hkind r hr, hagree.sources r hr⟩, hagree.ids, hsorted⟩, hagree.claims,
      hneighbours⟩

namespace ObservationSet

variable {name : SetName} {parent : Option SetVersion} {transformations : List SetTransformation}
  {set : ObservationSet T}

/-- What `derive` returns holds the records in order, under the names it was given. -/
theorem derive_fields (h : derive name source l parent transformations = .ok set) :
    set.name = name ∧ set.source = source ∧ set.records = sortBy position l ∧
      set.parentVersion = parent ∧ set.transformations = transformations ∧
      (sortBy position l).head?.map recordScheme = some set.kind := by
  unfold derive at h
  split at h
  · cases h
  · rename_i first later hsorted
    split at h
    · cases h
    · obtain rfl := ok_inj.mp h
      exact ⟨rfl, rfl, hsorted.symm, rfl, rfl, by rw [hsorted]; rfl⟩

theorem derive_eq {first : T} {later : List T} (hsorted : sortBy position l = first :: later)
    (hcheck : checkSet (recordScheme first) source (first :: later) = .ok ()) :
    derive name source l parent transformations =
      .ok ⟨name, recordScheme first, source, first :: later, parent, transformations, hcheck⟩ := by
  unfold derive
  split
  · rename_i hnil
    cases hsorted.symm.trans hnil
  · rename_i first' later' hsorted'
    obtain ⟨rfl, rfl⟩ := List.cons.inj (hsorted.symm.trans hsorted')
    split
    · rename_i hrefused
      cases hcheck.symm.trans hrefused
    · rfl

theorem derive_ok_iff : (∃ set : ObservationSet T,
      derive name source l parent transformations = .ok set) ↔
    ∃ first later, sortBy position l = first :: later ∧
      checkSet (recordScheme first) source (first :: later) = .ok () := by
  constructor
  · rintro ⟨set, h⟩
    unfold derive at h
    split at h
    · cases h
    · rename_i first later hsorted
      split at h
      · cases h
      · rename_i hcheck
        exact ⟨first, later, hsorted, hcheck⟩
  · rintro ⟨first, later, hsorted, hcheck⟩
    exact ⟨_, derive_eq hsorted hcheck⟩

/-- **A set is made of records that agree, in the order of their neighbours.** -/
theorem derive_iff : (∃ set : ObservationSet T,
      derive name source l parent transformations = .ok set) ↔
    l ≠ [] ∧ Agree source l ∧ NeighboursInTime l := by
  rw [derive_ok_iff]
  have hperm := sortBy_perm position l
  constructor
  · rintro ⟨first, later, hsorted, hcheck⟩
    obtain ⟨hne, -, hagree, hneighbours, -⟩ := checkSet_ok.mp hcheck
    rw [← hsorted] at hne hagree hneighbours
    refine ⟨?_, hagree.perm hperm, (hagree.neighboursInTime_perm hperm).mp hneighbours⟩
    rintro rfl
    exact hne rfl
  · rintro ⟨hne, hagree, hneighbours⟩
    cases hsorted : sortBy position l with
    | nil => exact absurd (hsorted ▸ hperm).symm.eq_nil hne
    | cons first later =>
      refine ⟨first, later, rfl, checkSet_ok.mpr ⟨List.cons_ne_nil _ _, ?_, ?_, ?_, ?_⟩⟩
      · rw [← hsorted]
        exact fun r hr => (hagree.perm hperm.symm).kinds r hr first (by simp [hsorted])
      · exact hsorted ▸ hagree.perm hperm.symm
      · exact hsorted ▸ (hagree.neighboursInTime_perm hperm.symm).mp hneighbours
      · exact hsorted ▸ sortBy_sorted position l

theorem agree (set : ObservationSet T) : Agree set.source set.records :=
  (checkSet_ok.mp set.checked).2.2.1

theorem derive_perm (hperm : l.Perm l') (hids : Keyed (recordId : T → String) l) :
    derive name source l parent transformations =
      derive name source l' parent transformations := by
  unfold derive
  rw [sortBy_eq_of_perm (keyed_position hids) hperm]

end ObservationSet

end

end AlphaLab
