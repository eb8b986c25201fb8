/-
  The indexes of a registry are what its declarations imply.

  * `InstrumentRegistry.Indexed` and `InstrumentRegistry.Claimed`: the invariants of the indexes and of the
    aliases; each declaration keeps them.
  * `registry_indexes_implied`: after any accepted declarations the members are those of the index
    built from scratch, the other indexes list what is declared, and a symbol names one instrument
    at any instant.
-/
import AlphaLab.Instrument.Registry

namespace AlphaLab

open Fallible Buckets

variable {label : Option String}

section
variable {ρ : Type} {members : Members} {dimension assetId : String} {before after : Option String}

theorem tidy_index (instruments : Dict String (DeclaredInstrument ρ))
    (dimensions : Dict String (Dict String (List Classification))) :
    Tidy (index instruments dimensions) := by
  refine Tidy.foldl (fun index d h => Tidy.foldl (fun index e h => ?_) h _)
    (Tidy.foldl (fun index e h => ?_) tidy_empty _) _
  · cases currentLabel e.2 with
    | none => exact h
    | some label => exact h.add
  · cases e.2.sector with
    | none => exact h
    | some sector => exact h.add

theorem carries_elim_add {index : Members} {d d' l a a' : String} :
    Carries (label.elim index fun label => Buckets.add index d' label a') d l a ↔
      Carries index d l a ∨ (d = d' ∧ a = a' ∧ label = some l) := by
  cases label with
  | none => simp
  | some label =>
    rw [Option.elim_some, carries_add]
    simp only [Option.some.injEq, eq_comm (a := label)]
    tauto

variable {d l a : String}

theorem carries_index {instruments : Dict String (DeclaredInstrument ρ)}
    {dimensions : Dict String (Dict String (List Classification))} :
    Carries (index instruments dimensions) d l a ↔
      (d = sectorDimension ∧ (instruments.get? a).bind (·.sector) = some l) ∨
        ((dimensions.get? d).bind (·.get? a)).bind currentLabel = some l := by
  have hsectors : Carries (instruments.entries.foldl (fun index e =>
      e.2.sector.elim index fun sector => Buckets.add index sectorDimension sector e.1)
        (.empty : Members)) d l a ↔
      d = sectorDimension ∧ (instruments.get? a).bind (·.sector) = some l := by
    rw [carries_foldl (P := fun e d l a => d = sectorDimension ∧ a = e.1 ∧ e.2.sector = some l)
      fun _ _ _ _ _ => carries_elim_add]
    simp only [carries_empty, false_or, Option.bind_eq_some_iff, Dict.get?_eq_some]
    constructor
    · rintro ⟨e, he, hd, rfl, hsector⟩
      exact ⟨hd, e.2, he, hsector⟩
    · rintro ⟨hd, record, hrecord, hsector⟩
      exact ⟨(a, record), hrecord, hd, rfl, hsector⟩
  have hdimension : ∀ (index : Members) (e : String × Dict String (List Classification))
      (d l a : String), Carries (e.2.entries.foldl (fun index f =>
        (currentLabel f.2).elim index fun label => Buckets.add index e.1 label f.1) index) d l a ↔
      Carries index d l a ∨ (d = e.1 ∧ (e.2.get? a).bind currentLabel = some l) := by
    intro index e d l a
    rw [carries_foldl (P := fun f d l a => d = e.1 ∧ a = f.1 ∧ currentLabel f.2 = some l)
      fun _ _ _ _ _ => carries_elim_add]
    simp only [Option.bind_eq_some_iff, Dict.get?_eq_some]
    constructor
    · rintro (hold | ⟨f, hf, hd, rfl, hlabel⟩)
      · exact Or.inl hold
      · exact Or.inr ⟨hd, f.2, hf, hlabel⟩
    · rintro (hold | ⟨hd, history, hhistory, hlabel⟩)
      · exact Or.inl hold
      · exact Or.inr ⟨(a, history), hhistory, hd, rfl, hlabel⟩
  unfold index
  rw [carries_foldl hdimension, hsectors]
  refine or_congr_right ?_
  rw [Option.bind_eq_some_iff]
  simp only [Option.bind_eq_some_iff, Dict.get?_eq_some]
  constructor
  · rintro ⟨e, he, rfl, history, hhistory, hlabel⟩
    exact ⟨history, ⟨e.2, he, hhistory⟩, hlabel⟩
  · rintro ⟨history, ⟨histories, hhistories, hhistory⟩, hlabel⟩
    exact ⟨(d, histories), hhistories, rfl, history, hhistory, hlabel⟩

variable {labels : Labels String String}

theorem unlabelled_spec (hfilled : Filled labels)
    (hbefore : ∀ l, Holds labels l assetId ↔ before = some l) :
    Filled (unlabelled labels assetId before) ∧ ∀ l a,
      Holds (unlabelled labels assetId before) l a ↔ Holds labels l a ∧ a ≠ assetId := by
  cases before with
  | none =>
    refine ⟨hfilled, fun l a => (and_iff_left_of_imp ?_).symm⟩
    rintro hholds rfl
    exact nomatch (hbefore l).mp hholds
  | some label =>
    obtain ⟨held, hheld, hmember⟩ := (hbefore label).mpr rfl
    have hunlabelled : unlabelled labels assetId (some label) =
        if (held.delete assetId).entries ≠ [] then labels.set label (held.delete assetId)
        else labels.delete label := by
      simp only [unlabelled, hheld, hmember, Option.isSome_some, if_true]
    rw [hunlabelled]
    refine ⟨hfilled.remove, fun l a => ?_⟩
    rw [holds_remove hheld]
    refine and_congr_right fun hholds => not_congr ?_
    constructor
    · exact fun h => h.2
    · rintro rfl
      exact ⟨(Option.some.inj ((hbefore l).mp hholds)).symm, rfl⟩

theorem labelled_spec (assetId : String) (after : Option String) (hfilled : Filled labels) :
    Filled (labelled labels assetId after) ∧ ∀ l a,
      Holds (labelled labels assetId after) l a ↔
        Holds labels l a ∨ (after = some l ∧ a = assetId) := by
  cases after with
  | none => exact ⟨hfilled, fun l a => by simp [labelled]⟩
  | some label =>
    refine ⟨hfilled.set, fun l a => ?_⟩
    rw [labelled, holds_set]
    simp only [Option.some.injEq, eq_comm (a := label)]

/-- **Moving a member**: it is in the bucket it is moved to, and no other member moves. -/
theorem relabelled_spec (after : Option String) (htidy : Tidy members)
    (hbefore : ∀ l, Carries members dimension l assetId ↔ before = some l) :
    Tidy (relabelled members dimension assetId before after) ∧ ∀ d l a,
      Carries (relabelled members dimension assetId before after) d l a ↔
        if d = dimension ∧ a = assetId then after = some l else Carries members d l a := by
  have hheld : ∀ l, Holds ((members.get? dimension).getD .empty) l assetId ↔ before = some l :=
    fun l => holds_getD.trans (hbefore l)
  obtain ⟨hfilled, hremoved⟩ := unlabelled_spec htidy.filled_getD hheld
  obtain ⟨hfilled, hmoved⟩ := labelled_spec assetId after hfilled
  have hheld : ∀ l a, Holds (labelled (unlabelled ((members.get? dimension).getD .empty) assetId
      before) assetId after) l a ↔
        if a = assetId then after = some l else Carries members dimension l a := by
    intro l a
    rw [hmoved, hremoved, holds_getD]
    split_ifs with ha <;> simp [ha]
  unfold relabelled
  dsimp only
  split_ifs with hsame hempty
  · subst hsame
    refine ⟨htidy, fun d l a => ?_⟩
    split_ifs with hself
    · obtain ⟨rfl, rfl⟩ := hself
      exact hbefore l
    · rfl
  · refine ⟨htidy.set hfilled hempty, fun d l a => ?_⟩
    rw [carries_set]
    by_cases hd : d = dimension
    · subst hd
      simp [hheld]
    · simp [hd]
  · -- the dimension held no other member
    refine ⟨htidy.delete, fun d l a => ?_⟩
    rw [carries_delete]
    by_cases hd : d = dimension
    · subst hd
      have hnone : ¬ Holds (labelled (unlabelled ((members.get? d).getD .empty) assetId before)
          assetId after) l a := by
        rintro ⟨held, hmem, -⟩
        rw [Dict.get?_eq_some, not_not.mp hempty] at hmem
        cases hmem
      rw [hheld] at hnone
      simp [hnone]
    · simp [hd]

end

section
variable {ρ : Type} {text : TextRules} {r r' : InstrumentRegistry ρ}
  {provider symbol assetId : String} {alias_ : DatedAlias}

structure InstrumentRegistry.Indexed (r : InstrumentRegistry ρ) : Prop where
  tidy : Tidy r.members
  carries : ∀ d l a, Carries r.members d l a ↔ r.labelOf a d = some l
  sector : r.dimensions.get? sectorDimension = none
  expiring : ∀ a t, r.expiring.get? a = some t ↔
    ∃ record, r.instruments.get? a = some record ∧ record.lastTradeAt = some t
  margined : ∀ a, r.margined.get? a = some () ↔
    ∃ record, r.instruments.get? a = some record ∧ record.margin ≠ none
  recallable : ∀ a, r.recallable.get? a = some () ↔
    ∃ record, r.instruments.get? a = some record ∧ record.recalls = true

/-- A static alias has no dated meaning, and dated meanings of a symbol do not overlap. -/
structure InstrumentRegistry.Claimed (r : InstrumentRegistry ρ) : Prop where
  exclusive : ∀ provider symbol, r.resolve provider symbol ≠ none →
    r.datedWindows provider symbol = []
  disjoint : ∀ provider symbol, (r.datedWindows provider symbol).Pairwise
    fun v w => ¬ v.1.Overlaps w.1

theorem DatedAlias.overlaps_comm {a b : DatedAlias} : a.Overlaps b ↔ b.Overlaps a := and_comm

variable {t : Instant}

theorem DatedAlias.overlaps_of_covers {a b : DatedAlias} (ha : a.Covers t) (hb : b.Covers t) :
    a.Overlaps b :=
  ⟨fun start hstart «end» hend => (ha.1 start hstart).trans_lt (hb.2 «end» hend),
    fun start hstart «end» hend => (hb.1 start hstart).trans_lt (ha.2 «end» hend)⟩

theorem indexed_empty : (InstrumentRegistry.empty : InstrumentRegistry ρ).Indexed where
  tidy := tidy_index _ _
  carries d l a := by
    change Carries (index (ρ := ρ) .empty .empty) d l a ↔ _
    rw [carries_index]
    unfold InstrumentRegistry.labelOf
    split_ifs <;> simp [InstrumentRegistry.empty, *]
  sector := rfl
  expiring a t := by simp [InstrumentRegistry.empty]
  margined a := by simp [InstrumentRegistry.empty]
  recallable a := by simp [InstrumentRegistry.empty]

theorem claimed_empty : (InstrumentRegistry.empty : InstrumentRegistry ρ).Claimed where
  exclusive _ _ _ := rfl
  disjoint _ _ := .nil

theorem withAlias_ok (h : r.withAlias text provider symbol assetId = .ok r') :
    r' = r ∨ r.datedWindows provider symbol = [] ∧ r' = { r with
      byProvider := r.byProvider.set provider
        (((r.byProvider.get? provider).getD .empty).set symbol assetId) } := by
  obtain ⟨_, -, h⟩ := bind_ok.mp h
  obtain ⟨_, -, h⟩ := bind_ok.mp h
  obtain ⟨_, hdated, h⟩ := bind_ok.mp h
  obtain ⟨_, -, h⟩ := bind_ok.mp h
  by_cases hheld : ((r.byProvider.get? provider).getD .empty).get? symbol = some assetId
  · exact Or.inl (ok_inj.mp ((if_pos hheld).symm.trans h)).symm
  · exact Or.inr ⟨require_ok.mp hdated, (ok_inj.mp ((if_neg hheld).symm.trans h)).symm⟩

theorem withAlias_claimed (h : r.withAlias text provider symbol assetId = .ok r')
    (hr : r.Claimed) : r'.Claimed := by
  rcases withAlias_ok h with rfl | ⟨hnone, rfl⟩
  · exact hr
  refine ⟨fun p s hresolve => ?_, hr.disjoint⟩
  change r.datedWindows p s = []
  by_cases hself : p = provider ∧ s = symbol
  · rw [hself.1, hself.2]
    exact hnone
  · refine hr.exclusive p s fun hold => hresolve ?_
    rw [InstrumentRegistry.resolve, Dict.get?_set]
    rw [InstrumentRegistry.resolve] at hold
    split_ifs with hp
    · subst hp
      rw [Option.bind_some, Dict.get?_set_of_ne _ _ fun hs => hself ⟨rfl, hs⟩]
      cases hsymbols : r.byProvider.get? p with
      | none => simp
      | some symbols =>
        rw [hsymbols] at hold
        exact hold
    · exact hold

theorem withAlias_indexed (h : r.withAlias text provider symbol assetId = .ok r')
    (hr : r.Indexed) : r'.Indexed := by
  rcases withAlias_ok h with rfl | ⟨-, rfl⟩
  · exact hr
  · exact ⟨hr.tidy, hr.carries, hr.sector, hr.expiring, hr.margined, hr.recallable⟩

theorem withDatedAlias_ok (h : r.withDatedAlias alias_ assetId = .ok r') :
    r' = r ∨ r.resolve alias_.provider alias_.symbol = none ∧
      (∀ held ∈ r.datedWindows alias_.provider alias_.symbol, ¬ held.1.Overlaps alias_) ∧
      r' = { r with
        dated := r.dated.set alias_.provider
          (((r.dated.get? alias_.provider).getD .empty).set alias_.symbol
            (sortBy (fun w => w.1.start)
              (r.datedWindows alias_.provider alias_.symbol ++ [(alias_, assetId)]))) } := by
  obtain ⟨_, hstatic, h⟩ := bind_ok.mp h
  by_cases hheld : (alias_, assetId) ∈ r.datedWindows alias_.provider alias_.symbol
  · exact Or.inl (ok_inj.mp ((if_pos hheld).symm.trans h)).symm
  · obtain ⟨_, hapart, h⟩ := bind_ok.mp ((if_neg hheld).symm.trans h)
    exact Or.inr ⟨require_ok.mp hstatic, require_ok.mp hapart, (ok_inj.mp h).symm⟩

theorem withDatedAlias_claimed (h : r.withDatedAlias alias_ assetId = .ok r')
    (hr : r.Claimed) : r'.Claimed := by
  rcases withDatedAlias_ok h with rfl | ⟨hstatic, hapart, rfl⟩
  · exact hr
  set windows := r.datedWindows alias_.provider alias_.symbol
  set ordered := sortBy (fun w : DatedAlias × String => w.1.start) (windows ++ [(alias_, assetId)])
  set r' : InstrumentRegistry ρ := { r with
    dated := r.dated.set alias_.provider
      (((r.dated.get? alias_.provider).getD .empty).set alias_.symbol ordered) }
  have hself : r'.datedWindows alias_.provider alias_.symbol = ordered := by
    simp [r', InstrumentRegistry.datedWindows]
  have hother : ∀ p s, ¬ (p = alias_.provider ∧ s = alias_.symbol) →
      r'.datedWindows p s = r.datedWindows p s := by
    intro p s hne
    simp only [r', InstrumentRegistry.datedWindows, Dict.get?_set]
    split_ifs with hp
    · subst hp
      rw [Option.bind_some, Dict.get?_set_of_ne _ _ fun hs => hne ⟨rfl, hs⟩]
      cases r.dated.get? alias_.provider with
      | none => simp
      | some symbols => rfl
    · rfl
  refine ⟨fun p s hresolve => ?_, fun p s => ?_⟩
  · change r.resolve p s ≠ none at hresolve
    rw [hother p s]
    · exact hr.exclusive p s hresolve
    · rintro ⟨rfl, rfl⟩
      exact hresolve hstatic
  · by_cases hps : p = alias_.provider ∧ s = alias_.symbol
    · rw [hps.1, hps.2, hself]
      have hperm := sortBy_perm (fun w : DatedAlias × String => w.1.start)
        (windows ++ [(alias_, assetId)])
      refine (hperm.pairwise_iff fun hvw => ?_).mpr ?_
      · rwa [DatedAlias.overlaps_comm]
      · rw [List.pairwise_append]
        refine ⟨hr.disjoint _ _, List.pairwise_singleton _ _, fun v hv w hw => ?_⟩
        rw [List.mem_singleton.mp hw]
        exact hapart v hv
    · rw [hother p s hps]
      exact hr.disjoint p s

theorem withDatedAlias_indexed (h : r.withDatedAlias alias_ assetId = .ok r')
    (hr : r.Indexed) : r'.Indexed := by
  rcases withDatedAlias_ok h with rfl | ⟨-, -, rfl⟩
  · exact hr
  · exact ⟨hr.tidy, hr.carries, hr.sector, hr.expiring, hr.margined, hr.recallable⟩

/-! ## Records and classifications -/

theorem labelOf_sector (assetId : String) : r.labelOf assetId sectorDimension =
    (r.instruments.get? assetId).bind (·.sector) := if_pos rfl

theorem labelOf_of_ne {dimension : String} (h : dimension ≠ sectorDimension) (assetId : String) :
    r.labelOf assetId dimension =
      ((r.dimensions.get? dimension).bind (·.get? assetId)).bind currentLabel := if_neg h

variable {record : DeclaredInstrument ρ}

theorem lists_added {instruments : Dict String (DeclaredInstrument ρ)}
    {P : DeclaredInstrument ρ → Prop} {listed listed' : Dict String Unit}
    (hnew : instruments.get? record.assetId = none)
    (h : ∀ a, listed.get? a = some () ↔ ∃ held, instruments.get? a = some held ∧ P held)
    (hyes : P record → listed' = listed.set record.assetId ()) (hno : ¬ P record → listed' = listed)
    (a : String) : listed'.get? a = some () ↔
      ∃ held, (instruments.set record.assetId record).get? a = some held ∧ P held := by
  rw [Dict.get?_set]
  by_cases hP : P record
  · rw [hyes hP, Dict.get?_set]
    split_ifs with ha
    · simp [hP]
    · exact h a
  · rw [hno hP]
    split_ifs with ha
    · subst ha
      rw [h, hnew]
      simp [hP]
    · exact h a

theorem withRecord_indexed (hnew : r.instruments.get? record.assetId = none) (hr : r.Indexed) :
    (r.withRecord record).Indexed := by
  have hbefore : ∀ l, Carries r.members sectorDimension l record.assetId ↔ none = some l := by
    intro l
    rw [hr.carries, labelOf_sector, hnew]
    simp
  obtain ⟨htidy, hmoved⟩ := relabelled_spec record.sector hr.tidy hbefore
  refine ⟨htidy, fun d l a => ?_, hr.sector, fun a t => ?_, fun a => ?_, fun a => ?_⟩
  · change Carries (relabelled _ _ _ _ _) d l a ↔ _
    rw [hmoved, hr.carries]
    by_cases hd : d = sectorDimension
    · subst hd
      rw [labelOf_sector, labelOf_sector]
      simp only [InstrumentRegistry.withRecord, Dict.get?_set, true_and]
      split_ifs <;> simp
    · rw [labelOf_of_ne hd, labelOf_of_ne hd]
      simp [InstrumentRegistry.withRecord, hd]
  · have hold := hr.expiring a t
    simp only [InstrumentRegistry.withRecord, Dict.get?_set]
    cases hlast : record.lastTradeAt with
    | none =>
      split_ifs with ha
      · subst ha
        simp [hnew, hlast, hold]
      · exact hold
    | some last =>
      rw [Option.elim_some, Dict.get?_set]
      split_ifs with ha
      · simp [hlast]
      · exact hold
  · exact lists_added hnew hr.margined (fun hmargin => if_neg hmargin)
      (fun hmargin => if_pos (not_not.mp hmargin)) a
  · exact lists_added hnew hr.recallable (fun hrecalls => if_pos hrecalls)
      (fun hrecalls => if_neg hrecalls) a

variable {source : String} {asOf : Option Instant}

variable {sector : Option String}

theorem classifyInstrument_ok (h : classifyInstrument text r assetId sector source asOf = .ok r') :
    ∃ record label history, r.instruments.get? assetId = some record ∧
      (r' = r ∨
        r' = { r with classifications := r.classifications.set assetId history } ∨
        r' = { r with
          classifications := r.classifications.set assetId history
          instruments := r.instruments.set assetId { record with sector := label }
          members := relabelled r.members sectorDimension assetId record.sector label }) := by
  obtain ⟨record, hrecord, h⟩ := bind_ok.mp h
  obtain ⟨declaration, -, h⟩ := bind_ok.mp h
  have hheld : r.instruments.get? assetId = some record := by
    unfold InstrumentRegistry.getInstrument at hrecord
    cases hget : r.instruments.get? assetId with
    | none =>
      rw [hget] at hrecord
      cases hrecord
    | some held =>
      rw [hget] at hrecord
      rw [ok_inj.mp hrecord]
  refine ⟨record, declaration.label,
    (r.classifications.get? assetId).getD [] ++ [declaration], hheld, ?_⟩
  dsimp only at h
  split_ifs at h with hsame hlabel
  · exact Or.inl (ok_inj.mp h).symm
  · exact Or.inr (Or.inl (ok_inj.mp h).symm)
  · exact Or.inr (Or.inr (ok_inj.mp h).symm)

/-- **A classified instrument** moves to its sector's bucket. -/
theorem classifyInstrument_indexed
    (h : classifyInstrument text r assetId sector source asOf = .ok r') (hr : r.Indexed) :
    r'.Indexed := by
  obtain ⟨record, label, history, hrecord, rfl | rfl | rfl⟩ := classifyInstrument_ok h
  · exact hr
  · exact ⟨hr.tidy, hr.carries, hr.sector, hr.expiring, hr.margined, hr.recallable⟩
  have hbefore : ∀ l, Carries r.members sectorDimension l assetId ↔ record.sector = some l := by
    intro l
    rw [hr.carries, labelOf_sector, hrecord, Option.bind_some]
  obtain ⟨htidy, hmoved⟩ := relabelled_spec label hr.tidy hbefore
  -- nothing else of the record changes
  have hdeclared : ∀ (P : DeclaredInstrument ρ → Prop) (a : String),
      (P record ↔ P { record with sector := label }) →
      ((∃ held, (r.instruments.set assetId { record with sector := label }).get? a = some held ∧
        P held) ↔ ∃ held, r.instruments.get? a = some held ∧ P held) := by
    intro P a hP
    rw [Dict.get?_set]
    split_ifs with ha
    · subst ha
      simp [hrecord, hP]
    · rfl
  refine ⟨htidy, fun d l a => ?_, hr.sector, fun a t => ?_, fun a => ?_, fun a => ?_⟩
  · change Carries (relabelled _ _ _ _ _) d l a ↔ _
    rw [hmoved, hr.carries]
    by_cases hd : d = sectorDimension
    · subst hd
      rw [labelOf_sector, labelOf_sector]
      simp only [Dict.get?_set, true_and]
      split_ifs <;> simp
    · rw [labelOf_of_ne hd, labelOf_of_ne hd]
      simp [hd]
  · exact (hr.expiring a t).trans (hdeclared (·.lastTradeAt = some t) a Iff.rfl).symm
  · exact (hr.margined a).trans (hdeclared (·.margin ≠ none) a Iff.rfl).symm
  · exact (hr.recallable a).trans (hdeclared (·.recalls = true) a Iff.rfl).symm

theorem classifyDimension_ok {dimension : String}
    (h : classifyDimension text r assetId dimension label source asOf = .ok r') :
    r' = r ∨ ∃ name, name ≠ sectorDimension ∧ ∃ declaration : Classification,
      r' = { r with
        dimensions := r.dimensions.set name (((r.dimensions.get? name).getD .empty).set assetId
          (((((r.dimensions.get? name).getD .empty).get? assetId).getD []) ++ [declaration]))
        members := relabelled r.members name assetId
          (currentLabel ((((r.dimensions.get? name).getD .empty).get? assetId).getD []))
          declaration.label } := by
  obtain ⟨_, -, h⟩ := bind_ok.mp h
  obtain ⟨name, -, h⟩ := bind_ok.mp h
  obtain ⟨_, hname, h⟩ := bind_ok.mp h
  obtain ⟨declaration, -, h⟩ := bind_ok.mp h
  dsimp only at h
  split_ifs at h with hsame
  · exact Or.inl (ok_inj.mp h).symm
  · exact Or.inr ⟨name, require_ok.mp hname, declaration, (ok_inj.mp h).symm⟩

/-- **An instrument classified along a dimension** moves to its label's bucket. -/
theorem classifyDimension_indexed {dimension : String}
    (h : classifyDimension text r assetId dimension label source asOf = .ok r') (hr : r.Indexed) :
    r'.Indexed := by
  rcases classifyDimension_ok h with rfl | ⟨name, hname, declaration, rfl⟩
  · exact hr
  set histories := (r.dimensions.get? name).getD .empty
  have hhistories : ∀ a, (r.dimensions.get? name).bind (·.get? a) = histories.get? a := by
    intro a
    simp only [histories]
    cases r.dimensions.get? name with
    | none => simp
    | some held => rfl
  have hbefore : ∀ l, Carries r.members name l assetId ↔
      currentLabel ((histories.get? assetId).getD []) = some l := by
    intro l
    rw [hr.carries, labelOf_of_ne hname, hhistories]
    cases histories.get? assetId with
    | none => simp [currentLabel]
    | some history => rfl
  obtain ⟨htidy, hmoved⟩ := relabelled_spec declaration.label hr.tidy hbefore
  refine ⟨htidy, fun d l a => ?_, ?_, hr.expiring, hr.margined, hr.recallable⟩
  · change Carries (relabelled _ _ _ _ _) d l a ↔ _
    rw [hmoved, hr.carries]
    by_cases hd : d = sectorDimension
    · subst hd
      rw [labelOf_sector, labelOf_sector]
      simp [hname.symm]
    · rw [labelOf_of_ne hd, labelOf_of_ne hd]
      simp only [Dict.get?_set]
      by_cases hdn : d = name
      · subst hdn
        rw [hhistories, if_pos rfl, Option.bind_some, Dict.get?_set]
        by_cases ha : a = assetId
        · subst ha
          simp [currentLabel]
        · simp [ha]
      · simp [hdn]
  · change (r.dimensions.set name _).get? sectorDimension = none
    rw [Dict.get?_set_of_ne _ _ hname.symm]
    exact hr.sector

theorem registerInstrument_keeps [DecidableEq ρ] (h : registerInstrument text r record = .ok r')
    (hr : r.Indexed ∧ r.Claimed) : r'.Indexed ∧ r'.Claimed := by
  obtain ⟨_, -, h⟩ := bind_ok.mp h
  obtain ⟨named, hnamed, h⟩ := bind_ok.mp h
  have hadded : (if (r.instruments.get? record.assetId).isSome then r
      else r.withRecord record).Indexed ∧
      (if (r.instruments.get? record.assetId).isSome then r else r.withRecord record).Claimed := by
    split_ifs with hheld
    · exact hr
    · exact ⟨withRecord_indexed (by simpa using hheld) hr.1, hr.2.exclusive, hr.2.disjoint⟩
  have hstatic : named.Indexed ∧ named.Claimed :=
    foldlM_invariant (fun r : InstrumentRegistry ρ => r.Indexed ∧ r.Claimed) hnamed hadded
      fun e _ s t hst hs => ⟨withAlias_indexed hst hs.1, withAlias_claimed hst hs.2⟩
  exact foldlM_invariant (fun r : InstrumentRegistry ρ => r.Indexed ∧ r.Claimed) h hstatic
    fun alias_ _ s t hst hs => ⟨withDatedAlias_indexed hst hs.1, withDatedAlias_claimed hst hs.2⟩

/-- **Each accepted declaration keeps the invariants.** -/
theorem RegistryCall.apply_keeps [DecidableEq ρ] {call : RegistryCall ρ}
    (h : call.apply text r = .ok r') (hr : r.Indexed ∧ r.Claimed) : r'.Indexed ∧ r'.Claimed := by
  cases call with
  | registerInstrument record => exact registerInstrument_keeps h hr
  | registerAlias assetId provider symbol =>
    obtain ⟨_, -, h⟩ := bind_ok.mp h
    exact ⟨withAlias_indexed h hr.1, withAlias_claimed h hr.2⟩
  | registerDatedAlias assetId alias_ =>
    obtain ⟨_, -, h⟩ := bind_ok.mp h
    exact ⟨withDatedAlias_indexed h hr.1, withDatedAlias_claimed h hr.2⟩
  | classifyInstrument assetId sector source asOf =>
    refine ⟨classifyInstrument_indexed h hr.1, ?_⟩
    obtain ⟨_, _, _, -, rfl | rfl | rfl⟩ := classifyInstrument_ok h
    · exact hr.2
    · exact ⟨hr.2.exclusive, hr.2.disjoint⟩
    · exact ⟨hr.2.exclusive, hr.2.disjoint⟩
  | classifyDimension assetId dimension label source asOf =>
    refine ⟨classifyDimension_indexed h hr.1, ?_⟩
    rcases classifyDimension_ok h with rfl | ⟨_, -, _, rfl⟩
    · exact hr.2
    · exact ⟨hr.2.exclusive, hr.2.disjoint⟩

/-! ## What a registry implies -/

def InstrumentRegistry.Claims (r : InstrumentRegistry ρ) (provider symbol : String) (t : Instant)
    (assetId : String) : Prop :=
  r.resolve provider symbol = some assetId ∨
    ∃ w ∈ r.datedWindows provider symbol, w.1.Covers t ∧ w.2 = assetId

/-- **The indexes of a registry are what its declarations imply.** -/
structure InstrumentRegistry.Implied (r : InstrumentRegistry ρ) : Prop where
  members : Same r.members (index r.instruments r.dimensions)
  expiring : ∀ a t, r.expiring.get? a = some t ↔
    ∃ record, r.instruments.get? a = some record ∧ record.lastTradeAt = some t
  margined : ∀ a, r.margined.get? a = some () ↔
    ∃ record, r.instruments.get? a = some record ∧ record.margin ≠ none
  recallable : ∀ a, r.recallable.get? a = some () ↔
    ∃ record, r.instruments.get? a = some record ∧ record.recalls = true
  exclusive : ∀ provider symbol, r.resolve provider symbol ≠ none →
    r.datedWindows provider symbol = []
  disjoint : ∀ provider symbol, (r.datedWindows provider symbol).Pairwise
    fun v w => ∀ t, ¬ (v.1.Covers t ∧ w.1.Covers t)
  once : ∀ provider symbol t a b, r.Claims provider symbol t a → r.Claims provider symbol t b →
    a = b
  resolves : ∀ provider symbol t a, r.resolveAt provider symbol t = some a ↔
    r.Claims provider symbol t a

theorem InstrumentRegistry.Indexed.members (hr : r.Indexed) :
    Same r.members (index r.instruments r.dimensions) := by
  refine hr.tidy.same (tidy_index _ _) fun d l a => ?_
  rw [hr.carries, carries_index]
  by_cases hd : d = sectorDimension
  · subst hd
    rw [labelOf_sector, hr.sector]
    simp
  · rw [labelOf_of_ne hd]
    simp [hd]

theorem InstrumentRegistry.Claimed.window_eq (hr : r.Claimed) {v w : DatedAlias × String}
    (hv : v ∈ r.datedWindows provider symbol) (hw : w ∈ r.datedWindows provider symbol)
    (hvt : v.1.Covers t) (hwt : w.1.Covers t) : v = w := by
  by_contra hne
  have : Std.Symm fun v w : DatedAlias × String => ¬ v.1.Overlaps w.1 :=
    ⟨fun _ _ h hvw => h (DatedAlias.overlaps_comm.mp hvw)⟩
  exact (hr.disjoint provider symbol).forall hv hw hne (DatedAlias.overlaps_of_covers hvt hwt)

theorem InstrumentRegistry.Claimed.once (hr : r.Claimed) {a b : String}
    (ha : r.Claims provider symbol t a) (hb : r.Claims provider symbol t b) : a = b := by
  rcases ha with ha | ⟨v, hv, hvt, rfl⟩ <;> rcases hb with hb | ⟨w, hw, hwt, rfl⟩
  · exact Option.some.inj (ha.symm.trans hb)
  · rw [hr.exclusive provider symbol (by simp [ha])] at hw
    cases hw
  · rw [hr.exclusive provider symbol (by simp [hb])] at hv
    cases hv
  · rw [hr.window_eq hv hw hvt hwt]

theorem InstrumentRegistry.Claimed.resolves (hr : r.Claimed) (provider symbol : String)
    (t : Instant) (a : String) :
    r.resolveAt provider symbol t = some a ↔ r.Claims provider symbol t a := by
  have hclaims : ∀ a, r.resolveAt provider symbol t = some a → r.Claims provider symbol t a := by
    unfold InstrumentRegistry.resolveAt
    intro a h
    split at h
    · next static hstatic => exact Or.inl (hstatic.trans h)
    · obtain ⟨w, hw, rfl⟩ := Option.map_eq_some_iff.mp h
      exact Or.inr ⟨w, List.mem_of_find?_eq_some hw, by simpa using List.find?_some hw, rfl⟩
  refine ⟨hclaims a, fun h => ?_⟩
  -- a claim is answered, and with no other instrument
  have hanswers : ∃ b, r.resolveAt provider symbol t = some b := by
    unfold InstrumentRegistry.resolveAt
    cases hstatic : r.resolve provider symbol with
    | some static => exact ⟨static, rfl⟩
    | none =>
      rcases h with h | ⟨w, hw, hwt, -⟩
      · rw [hstatic] at h
        cases h
      · have hfind : ((r.datedWindows provider symbol).find? fun w => w.1.Covers t).isSome :=
          List.find?_isSome.mpr ⟨w, hw, by simpa using hwt⟩
        obtain ⟨v, hv⟩ := Option.isSome_iff_exists.mp hfind
        exact ⟨v.2, by rw [hv]; rfl⟩
  obtain ⟨b, hb⟩ := hanswers
  rw [hb, hr.once h (hclaims b hb)]

/-- **A registry reached by accepted declarations**: its indexes are what they imply, and a
    provider's symbol names at most one instrument at any instant. -/
theorem registry_indexes_implied [DecidableEq ρ] (text : TextRules) (r : InstrumentRegistry ρ)
    (hrun : Runs (RegistryCall.apply text) (fun _ _ => True) .empty r) : r.Implied := by
  obtain ⟨hindexed, hclaimed⟩ := hrun.invariant (fun r => r.Indexed ∧ r.Claimed)
    ⟨indexed_empty, claimed_empty⟩ fun _ _ _ hr _ hstep => RegistryCall.apply_keeps hstep hr
  exact {
    members := hindexed.members
    expiring := hindexed.expiring
    margined := hindexed.margined
    recallable := hindexed.recallable
    exclusive := hclaimed.exclusive
    disjoint := fun provider symbol => (hclaimed.disjoint provider symbol).imp
      fun happart t hboth => happart (DatedAlias.overlaps_of_covers hboth.1 hboth.2)
    once := fun _ _ _ _ _ => hclaimed.once
    resolves := hclaimed.resolves }

/-- What `r` says of a provider's symbol, `r'` says too. -/
def InstrumentRegistry.Upholds (r r' : InstrumentRegistry ρ) : Prop :=
  ∀ provider symbol t a, r.Claims provider symbol t a → r'.Claims provider symbol t a

theorem withAlias_upholds (h : r.withAlias text provider symbol assetId = .ok r') :
    r.Upholds r' := by
  intro p s t a hclaim
  rcases withAlias_ok h with rfl | ⟨-, rfl⟩
  · exact hclaim
  refine hclaim.imp (fun hstatic => ?_) id
  obtain ⟨_, -, h⟩ := bind_ok.mp h
  obtain ⟨_, -, h⟩ := bind_ok.mp h
  obtain ⟨_, -, h⟩ := bind_ok.mp h
  obtain ⟨_, hsame, -⟩ := bind_ok.mp h
  have hsame := require_ok.mp hsame
  rw [InstrumentRegistry.resolve] at hstatic ⊢
  rw [Dict.get?_set]
  split_ifs with hp
  · subst hp
    obtain ⟨symbols, hsymbols, hs⟩ := Option.bind_eq_some_iff.mp hstatic
    rw [hsymbols, Option.getD_some] at hsame ⊢
    rw [Option.bind_some, Dict.get?_set]
    split_ifs with hself
    · subst hself
      rw [hsame a hs]
    · exact hs
  · exact hstatic

theorem withDatedAlias_upholds (h : r.withDatedAlias alias_ assetId = .ok r') :
    r.Upholds r' := by
  intro p s t a hclaim
  rcases withDatedAlias_ok h with rfl | ⟨-, -, rfl⟩
  · exact hclaim
  refine hclaim.imp id ?_
  rintro ⟨w, hw, hcovers⟩
  refine ⟨w, ?_, hcovers⟩
  rw [InstrumentRegistry.datedWindows, Dict.get?_set]
  split_ifs with hp
  · subst hp
    rw [Option.bind_some, Dict.get?_set]
    split_ifs with hs
    · subst hs
      rw [Option.getD_some, (sortBy_perm _ _).mem_iff]
      exact List.mem_append_left _ hw
    · rw [InstrumentRegistry.datedWindows] at hw
      cases hheld : r.dated.get? alias_.provider with
      | none => simp [hheld] at hw
      | some held => simpa [hheld] using hw
  · exact hw

theorem RegistryCall.apply_upholds [DecidableEq ρ] {call : RegistryCall ρ}
    (h : call.apply text r = .ok r') : r.Upholds r' := by
  cases call with
  | registerInstrument record =>
    obtain ⟨_, -, h⟩ := bind_ok.mp h
    obtain ⟨named, hnamed, h⟩ := bind_ok.mp h
    refine foldlM_invariant (fun u : InstrumentRegistry ρ => r.Upholds u) h
      (foldlM_invariant (fun u : InstrumentRegistry ρ => r.Upholds u) hnamed ?_ ?_) ?_
    · split_ifs
      · exact fun _ _ _ _ hclaim => hclaim
      · exact fun _ _ _ _ hclaim => hclaim
    · exact fun e _ u v huv hu p s t a hclaim => withAlias_upholds huv p s t a (hu p s t a hclaim)
    · exact fun e _ u v huv hu p s t a hclaim =>
        withDatedAlias_upholds huv p s t a (hu p s t a hclaim)
  | registerAlias assetId provider symbol =>
    obtain ⟨_, -, h⟩ := bind_ok.mp h
    exact withAlias_upholds h
  | registerDatedAlias assetId alias_ =>
    obtain ⟨_, -, h⟩ := bind_ok.mp h
    exact withDatedAlias_upholds h
  | classifyInstrument assetId sector source asOf =>
    obtain ⟨_, _, _, -, rfl | rfl | rfl⟩ := classifyInstrument_ok h <;>
      exact fun _ _ _ _ hclaim => hclaim
  | classifyDimension assetId dimension label source asOf =>
    rcases classifyDimension_ok h with rfl | ⟨_, -, _, rfl⟩ <;>
      exact fun _ _ _ _ hclaim => hclaim

/-- **What a symbol resolves to at an instant, no later declaration changes.** -/
theorem resolution_stands [DecidableEq ρ] (text : TextRules)
    (hrun : Runs (RegistryCall.apply text) (fun _ _ => True) .empty r)
    (hlater : Runs (RegistryCall.apply text) (fun _ _ => True) r r')
    (h : r.resolveAt provider symbol t = some assetId) :
    r'.resolveAt provider symbol t = some assetId := by
  have hclaimed := hrun.invariant (fun u => u.Indexed ∧ u.Claimed) ⟨indexed_empty, claimed_empty⟩
    fun _ _ _ hu _ hstep => RegistryCall.apply_keeps hstep hu
  obtain ⟨hclaimed', hupholds⟩ := hlater.invariant
    (fun u => (u.Indexed ∧ u.Claimed) ∧ r.Upholds u) ⟨hclaimed, fun _ _ _ _ hclaim => hclaim⟩
    fun u _ v hu _ hstep => ⟨RegistryCall.apply_keeps hstep hu.1, fun p s t a hclaim =>
      RegistryCall.apply_upholds hstep p s t a (hu.2 p s t a hclaim)⟩
  rw [hclaimed'.2.resolves]
  exact hupholds _ _ _ _ ((hclaimed.2.resolves _ _ _ _).mp h)

end

/-- Text without blanks, in lower case, all of it printable. -/
def plainWords : TextRules where
  strip := id
  lower := id
  isPrintable := fun _ => true

/-- A future and a share, a ticker that is reused, and a share that changes its bucket twice. -/
def twoInstruments : List (RegistryCall Unit) := [
  .registerInstrument {
    assetId := "future", sector := some "energy", lastTradeAt := some 100,
    margin := some { basis := .valueRate, initial := 1 / 10, maintenance := 1 / 20 }, rest := () },
  .registerInstrument {
    assetId := "share", borrow := some [some 50],
    datedAliases := [{ provider := "vendor", symbol := "ABC", validFrom := none,
                       validTo := some 10, nonempty := by simp }], rest := () },
  .registerDatedAlias "future" { provider := "vendor", symbol := "ABC", validFrom := some 10,
                                 validTo := none, nonempty := by simp },
  .registerAlias "share" "venue" "XYZ",
  .classifyInstrument "share" (some "energy") "vendor" none,
  .classifyDimension "share" "country" (some "FR") "vendor" none,
  .classifyInstrument "share" none "vendor" none,
  .classifyDimension "share" "country" none "vendor" (some 20)]

theorem registry_indexes_implied_two : ∃ r,
    twoInstruments.foldlM (RegistryCall.apply plainWords) .empty = .ok r ∧ r.Implied := by
  obtain ⟨r, hr, -⟩ := exists_ok_of
    (x := twoInstruments.foldlM (RegistryCall.apply plainWords) .empty) (fun _ => True)
    (by decide +kernel)
  exact ⟨r, hr, registry_indexes_implied plainWords r (Runs.of_foldlM hr fun _ _ _ => trivial)⟩

theorem resolution_stands_two : ∃ r r',
    (twoInstruments.take 3).foldlM (RegistryCall.apply plainWords) .empty = .ok r ∧
    (twoInstruments.drop 3).foldlM (RegistryCall.apply plainWords) r = .ok r' ∧
    r'.resolveAt "vendor" "ABC" 10 = some "future" := by
  obtain ⟨r, hr, hresolves⟩ := exists_ok_of
    (x := (twoInstruments.take 3).foldlM (RegistryCall.apply plainWords) .empty)
    (fun r => r.resolveAt "vendor" "ABC" 10 = some "future") (by decide +kernel)
  obtain ⟨r', hr', -⟩ := exists_ok_of
    (x := twoInstruments.foldlM (RegistryCall.apply plainWords) .empty) (fun _ => True)
    (by decide +kernel)
  rw [← List.take_append_drop 3 twoInstruments, List.foldlM_append, hr] at hr'
  exact ⟨r, r', hr, hr', resolution_stands plainWords
    (Runs.of_foldlM hr fun _ _ _ => trivial) (Runs.of_foldlM hr' fun _ _ _ => trivial) hresolves⟩

end AlphaLab
