/-
  A bucket's kept gross and its members' (`runtime/execution_pipeline.py`).

  * `GroupedBook.Sound`: a book's totals are its positions', and a grouping of this registry is
    by its buckets; every step of a run keeps it (`BucketView.step_sound`).
  * `kept_gross_exact`: a kept figure is the exact sum over the members; **it is the figure the
    members sum to** (`kept_bucket_gross_iff`) exactly where their sum in the context is exact.
-/
import AlphaLab.Instrument.RegistryRuns
import AlphaLab.Portfolio.FreshBooks
import AlphaLab.Risk.Buckets
import AlphaLab.Runtime.RunCalls

namespace AlphaLab

open Fallible Buckets Tally

variable {ρ : Type}

section
variable {α M : Type} [AddCommMonoid M] {l l' : List α} {f : α → M}

theorem sum_filter_of_zero {p : α → Bool} (h : ∀ a ∈ l, p a = false → f a = 0) :
    ((l.filter p).map f).sum = (l.map f).sum := by
  induction l with
  | nil => rfl
  | cons a l ih =>
    have hrest := ih fun b hb => h b (List.mem_cons_of_mem a hb)
    rw [List.filter_cons, List.map_cons, List.sum_cons]
    split_ifs with ha
    · rw [List.map_cons, List.sum_cons, hrest]
    · rw [hrest, h a List.mem_cons_self (Bool.not_eq_true _ ▸ ha), zero_add]

theorem sum_common [DecidableEq α] (hl : l.Nodup) (hl' : l'.Nodup) (h : ∀ a, a ∉ l → f a = 0) :
    (l'.map f).sum = ((l.filter (· ∈ l')).map f).sum := by
  have hperm : (l.filter (· ∈ l')).Perm (l'.filter (· ∈ l)) := by
    refine (List.perm_ext_iff_of_nodup (hl.filter _) (hl'.filter _)).mpr fun a => ?_
    simp [and_comm]
  rw [(hperm.map f).sum_eq, sum_filter_of_zero]
  intro a _ ha
  exact h a (by simpa using ha)

end

/-! ## Groups of an asset -/

section
variable {registry : InstrumentRegistry ρ} {members : Members}
  {keys : Dict String (List (String × String))} {assetId : String}

def keysAt (keys : Dict String (List (String × String))) (assetId : String) :
    List (String × String) := (keys.get? assetId).getD []

theorem keysAt_addKey (group : String × String) (member : String) :
    keysAt (addKey group keys member) assetId =
      keysAt keys assetId ++ if assetId = member then [group] else [] := by
  rw [keysAt, addKey, Dict.get?_set]
  split_ifs with h
  · rw [h]
    rfl
  · rw [List.append_nil]
    rfl

theorem keysAt_bucket (group : String × String) {held : List String} (hheld : held.Nodup) :
    keysAt (held.foldl (addKey group) keys) assetId =
      keysAt keys assetId ++ if assetId ∈ held then [group] else [] := by
  induction held generalizing keys with
  | nil => simp
  | cons member held ih =>
    obtain ⟨hnotMem, hrest⟩ := List.nodup_cons.mp hheld
    rw [List.foldl_cons, ih hrest, keysAt_addKey, List.append_assoc]
    congr 1
    by_cases h : assetId = member
    · subst h
      simp [hnotMem]
    · simp [h]

def bucketsOf (members : Members) (assetId dimension : String) : List (String × String) :=
  (((members.get? dimension).getD .empty).entries.filter fun bucket =>
    assetId ∈ bucket.2.keys).map fun bucket => (dimension, bucket.1)

theorem keysAt_dimension (dimension : String) :
    keysAt (dimensionKeys members keys dimension) assetId =
      keysAt keys assetId ++ bucketsOf members assetId dimension := by
  rw [dimensionKeys, bucketsOf]
  generalize ((members.get? dimension).getD .empty).entries = entries
  induction entries generalizing keys with
  | nil => simp
  | cons bucket entries ih =>
    have hnodup : bucket.2.keys.Nodup := bucket.2.nodup
    rw [List.foldl_cons, ih, keysAt_bucket _ hnodup, List.append_assoc, List.filter_cons]
    split_ifs with h <;> simp_all

theorem keysAt_dimensions (dimensions : List String) :
    keysAt (dimensions.foldl (dimensionKeys members) keys) assetId =
      keysAt keys assetId ++ dimensions.flatMap (bucketsOf members assetId) := by
  induction dimensions generalizing keys with
  | nil => simp
  | cons dimension dimensions ih =>
    rw [List.foldl_cons, ih, keysAt_dimension, List.append_assoc, List.flatMap_cons]

theorem mem_bucketsOf {dimension : String} {group : String × String} :
    group ∈ bucketsOf members assetId dimension ↔
      group.1 = dimension ∧ Carries members group.1 group.2 assetId := by
  rw [bucketsOf, List.mem_map]
  constructor
  · rintro ⟨bucket, hbucket, rfl⟩
    obtain ⟨hentry, hmem⟩ := List.mem_filter.mp hbucket
    refine ⟨rfl, holds_getD.mp ⟨bucket.2, (Dict.get?_eq_some _).mpr hentry, ?_⟩⟩
    obtain ⟨_, hget⟩ := (bucket.2.mem_keys_iff).mp (by simpa using hmem)
    exact hget
  · rintro ⟨rfl, hcarries⟩
    obtain ⟨held, hheld, hget⟩ := holds_getD.mpr hcarries
    refine ⟨(group.2, held), List.mem_filter.mpr ⟨(Dict.get?_eq_some _).mp hheld, ?_⟩, rfl⟩
    simpa using held.mem_keys_iff.mpr ⟨(), hget⟩

theorem nodup_bucketsOf (dimension : String) : (bucketsOf members assetId dimension).Nodup := by
  have hnodup := ((members.get? dimension).getD .empty).nodup
  rw [bucketsOf]
  refine List.Nodup.of_map Prod.snd ?_
  rw [List.map_map]
  exact hnodup.sublist (List.filter_sublist.map _)

/-- **The groups of an asset are the buckets it is in**, of the dimensions limited. -/
theorem mem_keysOf {limits : List ClassificationLimit} {groups : BookGroups}
    (h : bookGroups registry limits = some groups) {group : String × String} :
    group ∈ groups.keysOf assetId ↔
      group.1 ∈ groups.dimensions ∧ Carries registry.members group.1 group.2 assetId := by
  rw [bookGroups] at h
  split_ifs at h
  obtain rfl := Option.some.inj h
  change group ∈ keysAt _ _ ↔ _
  rw [keysAt_dimensions]
  simp only [keysAt, Dict.get?_empty, Option.getD_none, List.nil_append, List.mem_flatMap,
    mem_bucketsOf]
  constructor
  · rintro ⟨dimension, hmem, rfl, hcarries⟩
    exact ⟨hmem, hcarries⟩
  · rintro ⟨hmem, hcarries⟩
    exact ⟨_, hmem, rfl, hcarries⟩

theorem nodup_keysOf {limits : List ClassificationLimit} {groups : BookGroups}
    (h : bookGroups registry limits = some groups) : (groups.keysOf assetId).Nodup := by
  rw [bookGroups] at h
  split_ifs at h
  obtain rfl := Option.some.inj h
  change (keysAt _ _).Nodup
  rw [keysAt_dimensions]
  simp only [keysAt, Dict.get?_empty, Option.getD_none, List.nil_append]
  refine List.nodup_flatMap.mpr ⟨fun dimension _ => nodup_bucketsOf dimension, ?_⟩
  refine (SortedSet.ofList (limits.map (·.dimension))).sorted.imp fun {d e} hlt => ?_
  rintro group hd he
  obtain ⟨hd, -⟩ := mem_bucketsOf.mp hd
  obtain ⟨he, -⟩ := mem_bucketsOf.mp he
  exact absurd (hd.symm.trans he) hlt.ne

theorem shares_of_nodup {key : GroupKey} {groups : List (String × String)} (h : groups.Nodup)
    (held : HeldValue) : shares key groups (some held) =
      if (key.dimension, key.label) ∈ groups ∧ held.1 = key.currency then (1, |held.2|) else 0 := by
  induction groups with
  | nil => simp [shares]
  | cons group groups ih =>
    obtain ⟨hnotMem, hrest⟩ := List.nodup_cons.mp h
    have hcons : shares key (group :: groups) (some held) =
        share key group held + shares key groups (some held) := by
      rw [shares, List.map_cons, List.sum_cons]
      rfl
    rw [hcons, ih hrest, share]
    by_cases hgroup : (key.dimension, key.label) = group
    · subst hgroup
      have hkey : key = ⟨key.dimension, key.label, held.1⟩ ↔ held.1 = key.currency := by
        cases key
        simp [eq_comm]
      simp only [hnotMem, false_and, if_false, add_zero, List.mem_cons, true_or, true_and]
      exact if_congr hkey rfl rfl
    · have hkey : key ≠ ⟨group.1, group.2, held.1⟩ := by
        rintro hkey
        rw [hkey] at hgroup
        exact hgroup rfl
      rw [if_neg hkey, zero_add]
      simp only [List.mem_cons, hgroup, false_or]

end

/-- A book's totals are its positions', and a grouping of this registry is by its buckets. -/
structure GroupedBook.Sound (instruments : RunInstruments ρ) (held : GroupedBook) : Prop where
  kept : held.book.Kept
  grouped : held.source = some instruments.object →
    ∃ limits, held.book.groups = bookGroups instruments.registry limits

section
variable {registry : InstrumentRegistry ρ} {book : PositionBook} {groups : BookGroups}
  {limits : List ClassificationLimit} {dimension label base : String}

theorem mem_bucketMembers {assetId : String} : assetId ∈ registry.bucketMembers dimension label ↔
    Carries registry.members dimension label assetId := by
  unfold InstrumentRegistry.bucketMembers Carries Holds
  cases hlabels : registry.members.get? dimension with
  | none => simp
  | some labels =>
    cases hheld : labels.get? label with
    | none => simp [hheld]
    | some held =>
      simp only [Option.bind_some, hheld, Option.elim_some, Dict.mem_keys_iff, Option.some.injEq,
        exists_eq_left']
      exact ⟨fun ⟨_, h⟩ => h, fun h => ⟨(), h⟩⟩

theorem nodup_bucketMembers : (registry.bucketMembers dimension label).Nodup := by
  unfold InstrumentRegistry.bucketMembers
  cases (registry.members.get? dimension).bind (·.get? label) with
  | none => exact List.nodup_nil
  | some held => exact held.nodup

theorem shares_of_groups (hbook : bookGroups registry limits = some groups)
    (hdimension : dimension ∈ groups.dimensions) (assetId currency : String) (p : Position) :
    shares ⟨dimension, label, currency⟩ (groups.keysOf assetId) (some p.heldValue) =
      if assetId ∈ registry.bucketMembers dimension label ∧ p.currency = currency
      then (1, |p.marketValue|) else 0 := by
  rw [shares_of_nodup (nodup_keysOf hbook)]
  refine if_congr ?_ rfl rfl
  rw [mem_keysOf hbook, mem_bucketMembers]
  exact and_congr_left' (and_iff_right hdimension)

/-- **The gross a book keeps for a bucket** is what its members' values come to. -/
theorem groupGross_eq (hkept : book.Kept) (hgroups : book.groups = some groups)
    (hbook : bookGroups registry limits = some groups) {kept : Dict String Decimal}
    (hgross : book.groupGross dimension label = some kept) (hbase : ∀ c ∈ kept.keys, c = base) :
    (kept.get? base).getD 0 = ((registry.bucketMembers dimension label).map fun member =>
      |((book.entries.get? member).map (·.value)).getD 0|).sum := by
  have hread := PositionBook.groupGross_of_groups hgroups dimension label
  rw [hgross, Option.map_some] at hread
  split_ifs at hread with hdimension
  have hkey : ∀ c, kept.get? c = (book.groupTotals.get? ⟨dimension, label, c⟩).map Prod.snd := by
    intro c
    rw [Option.some.inj hread]
    dsimp only
    split_ifs with hc
    · rfl
    · cases hheld : book.groupTotals.get? ⟨dimension, label, c⟩ with
      | none => rfl
      | some v =>
        obtain ⟨a, p, hp, hcurrency, -⟩ := hkept.mem_gross.mp
          ((Dict.mem_keys_iff _).mpr ⟨v, hheld⟩)
        exact absurd (hkept.mem_totals.mpr ⟨a, p, hp, hcurrency⟩) hc
  -- every member the book holds is in the base currency
  have hcurrency : ∀ a p, book.positions.get? a = some p →
      a ∈ registry.bucketMembers dimension label → p.currency = base := by
    intro a p hp hmem
    have hin : (⟨dimension, label, p.currency⟩ : GroupKey) ∈ book.groupTotals.keys := by
      refine hkept.mem_gross.mpr ⟨a, p, hp, rfl, ?_⟩
      rw [hgroups]
      exact (mem_keysOf hbook).mpr ⟨hdimension, mem_bucketMembers.mp hmem⟩
    obtain ⟨v, hv⟩ := (Dict.mem_keys_iff _).mp hin
    exact hbase _ ((Dict.mem_keys_iff _).mpr ⟨v.2, by rw [hkey, hv]; rfl⟩)
  have htally := hkept.gross.getD (groupTally_counted book.groups book.positions
    ⟨dimension, label, base⟩)
  have hvalue : (kept.get? base).getD 0 =
      (groupTally book.groups book.positions ⟨dimension, label, base⟩).2 := by
    rw [← htally, hkey]
    cases book.groupTotals.get? ⟨dimension, label, base⟩ <;> rfl
  have hentry : ∀ a p, book.positions.get? a = some p →
      ((book.entries.get? a).map (·.value)).getD 0 = p.marketValue := by
    intro a p hp
    rw [hkept.entry hp]
    rfl
  generalize hfilled : (fun a => |((book.entries.get? a).map (·.value)).getD 0|) = filled
  have hterm : ∀ e ∈ book.positions.entries,
      (shares ⟨dimension, label, base⟩ (groupsOf book.groups e.1) (some e.2.heldValue)).2 =
        if e.1 ∈ registry.bucketMembers dimension label then filled e.1 else 0 := by
    rintro ⟨a, p⟩ he
    have hp := (Dict.get?_eq_some _).mpr he
    rw [hgroups, groupsOf, Option.elim_some, shares_of_groups hbook hdimension]
    by_cases hmem : a ∈ registry.bucketMembers dimension label
    · rw [if_pos ⟨hmem, hcurrency a p hp hmem⟩, if_pos hmem, ← hfilled]
      exact congrArg abs (hentry a p hp).symm
    · rw [if_neg fun h => hmem h.1, if_neg hmem]
      rfl
  have hnone : ∀ a, a ∉ book.positions.keys → filled a = 0 := by
    intro a ha
    have hget := (Dict.get?_eq_none _).mpr ha
    rw [← hfilled, hkept.entries]
    dsimp only
    rw [Dict.get?_mapValues, hget]
    exact abs_zero
  rw [hvalue, sum_common book.positions.nodup nodup_bucketMembers hnone]
  have hsnd : (groupTally book.groups book.positions ⟨dimension, label, base⟩).2 =
      (book.positions.entries.map fun e => (shares ⟨dimension, label, base⟩
        (groupsOf book.groups e.1) (some e.2.heldValue)).2).sum := by
    have h := map_list_sum (AddMonoidHom.snd ℤ Decimal) (book.positions.entries.map fun e =>
      shares ⟨dimension, label, base⟩ (groupsOf book.groups e.1) (some e.2.heldValue))
    rw [List.map_map] at h
    exact h
  have hkeys : (book.positions.entries.map fun e =>
      if e.1 ∈ registry.bucketMembers dimension label then filled e.1 else 0) =
      book.positions.keys.map fun a =>
        if a ∈ registry.bucketMembers dimension label then filled a else 0 := by
    rw [Dict.keys, List.map_map]
    rfl
  rw [hsnd, List.map_congr_left hterm, hkeys]
  rw [← sum_filter_of_zero (p := fun a => decide (a ∈ registry.bucketMembers dimension label))]
  · refine congrArg List.sum (List.map_congr_left fun a ha => if_pos ?_)
    simpa using (List.mem_filter.mp ha).2
  · intro a _ ha
    exact if_neg (by simpa using ha)

end

theorem recount_fold (values : AssetValues) (working : Dict String WorkingExposure) :
    ∀ {assets : List String} {total result : Decimal},
      assets.foldlM (values.recount working) total = some result →
        result = total +
          (assets.map fun a => |values.committed working a| - |values.filled a|).sum := by
  intro assets
  induction assets with
  | nil =>
    intro total result h
    rw [List.map_nil, List.sum_nil, add_zero]
    exact (Option.some.inj h).symm
  | cons a assets ih =>
    intro total result h
    rw [List.foldlM_cons] at h
    obtain ⟨next, hnext, h⟩ := Option.bind_eq_some_iff.mp h
    obtain ⟨others, hothers, hnext⟩ := Option.bind_eq_some_iff.mp hnext
    unfold AssetValues.exactly at hothers hnext
    split_ifs at hothers hnext
    obtain rfl := Option.some.inj hothers
    obtain rfl := Option.some.inj hnext
    rw [ih h, List.map_cons, List.sum_cons]
    ring

section
variable {instruments : RunInstruments ρ} {values : AssetValues}
  {working : Dict String WorkingExposure} {dimension label base : String} {total : Decimal}

/-- **A kept figure is the exact sum over the members.** -/
theorem kept_gross_exact (hindexed : instruments.registry.Indexed)
    (hsound : ∀ held, values = .ofBook held → held.Sound instruments)
    (h : values.keptBucketGross working instruments dimension label base = some total) :
    total = (values.memberValues working instruments.registry dimension label).sum := by
  cases values with
  | copied values => cases h
  | ofBook held =>
    have hheld := hsound held rfl
    unfold AssetValues.keptBucketGross at h
    dsimp only at h
    split_ifs at h with hsource
    obtain ⟨limits, hgroups⟩ := hheld.grouped (not_not.mp hsource)
    obtain ⟨kept, hgross, h⟩ := Option.bind_eq_some_iff.mp h
    split_ifs at h with hbase
    have hbase : ∀ c ∈ kept.keys, c = base := by simpa using hbase
    obtain ⟨groups, hbook⟩ : ∃ groups, held.book.groups = some groups := by
      cases hnone : held.book.groups with
      | none =>
        rw [PositionBook.groupGross, hnone] at hgross
        cases hgross
      | some groups => exact ⟨groups, rfl⟩
    rw [recount_fold _ _ h, groupGross_eq hheld.kept hbook (hgroups.symm.trans hbook) hgross hbase]
    -- working orders outside the bucket, and members without any, change nothing
    have hmembers : ∀ a, decide (instruments.registry.labelOf a dimension = some label) =
        decide (a ∈ instruments.registry.bucketMembers dimension label) := by
      intro a
      rw [decide_eq_decide, mem_bucketMembers, hindexed.carries]
    simp only [hmembers]
    rw [← sum_common (l := working.keys) working.nodup nodup_bucketMembers, AssetValues.memberValues,
      ← List.sum_map_add]
    · refine congrArg List.sum (List.map_congr_left fun a _ => ?_)
      exact add_sub_cancel _ _
    · intro a ha
      have hget := (Dict.get?_eq_none _).mpr ha
      rw [AssetValues.committed, hget, committedValue, Option.elim_none, sub_self]

end

/-! ## Runs -/

/-- A grouping by this run's registry object is by its registry. -/
def BucketStep.Identified (instruments : RunInstruments ρ) : BucketStep ρ → Prop
  | .group other _ => other.object = instruments.object → other.registry = instruments.registry
  | _ => True

structure BucketView.Sound (instruments : RunInstruments ρ) (view : BucketView) : Prop where
  held : view.held.Sound instruments
  values : ∀ held, view.values = .ofBook held → held.Sound instruments

section
variable {instruments : RunInstruments ρ} {base : String} {view next : BucketView}

theorem BucketView.initial_sound {start : Dict String Position} {book : PositionBook}
    (h : PositionBook.ofPositions start = .ok book) : (BucketView.initial book).Sound instruments :=
  ⟨⟨(PositionBook.ofPositions_kept h).2.2, fun h => nomatch h⟩, fun _ h => nomatch h⟩

theorem GroupedBook.Sound.group {held grouped : GroupedBook} (hheld : held.Sound instruments)
    {other : RunInstruments ρ} {limits : List ClassificationLimit}
    (hsame : other.object = instruments.object → other.registry = instruments.registry)
    (h : held.group other limits = .ok grouped) : grouped.Sound instruments := by
  unfold GroupedBook.group at h
  cases hgroups : bookGroups other.registry limits with
  | none =>
    rw [hgroups] at h
    exact pure_ok.mp h ▸ hheld
  | some groups =>
    rw [hgroups] at h
    obtain ⟨book, hbook, h⟩ := bind_ok.mp h
    obtain rfl := pure_ok.mp h
    obtain ⟨-, hbookGroups, hkept⟩ := PositionBook.grouped_kept hheld.kept hbook
    refine ⟨hkept, fun hsource => ⟨limits, ?_⟩⟩
    rw [← hsame (Option.some.inj hsource), hgroups]
    exact hbookGroups

/-- **Every step keeps the book sound**, and the book the values are of. -/
theorem BucketView.step_sound {step : BucketStep ρ} (hview : view.Sound instruments)
    (hmeets : step.Identified instruments) (h : view.step base step = .ok next) :
    next.Sound instruments := by
  cases step with
  | book assetId position =>
    obtain ⟨book, hbook, h⟩ := bind_ok.mp h
    obtain rfl := pure_ok.mp h
    obtain ⟨-, hgroups, hkept⟩ := PositionBook.set_kept hview.held.kept hbook
    exact ⟨⟨hkept, fun hsource => by rw [hgroups]; exact hview.held.grouped hsource⟩, hview.values⟩
  | remove assetId =>
    obtain ⟨book, hbook, h⟩ := bind_ok.mp h
    obtain rfl := pure_ok.mp h
    obtain ⟨-, hgroups, hkept⟩ := PositionBook.delete_kept hview.held.kept hbook
    exact ⟨⟨hkept, fun hsource => by rw [hgroups]; exact hview.held.grouped hsource⟩, hview.values⟩
  | resync converted =>
    obtain rfl := pure_ok.mp h
    refine ⟨hview.held, fun held hvalues => ?_⟩
    dsimp only at hvalues
    split_ifs at hvalues
    obtain rfl := AssetValues.ofBook.inj hvalues
    exact hview.held
  | group other limits =>
    obtain ⟨held, hheld, h⟩ := bind_ok.mp h
    obtain rfl := pure_ok.mp h
    exact ⟨hview.held.group hmeets hheld, hview.values⟩
  | restore positions values =>
    obtain ⟨book, hbook, h⟩ := bind_ok.mp h
    obtain rfl := pure_ok.mp h
    exact ⟨⟨(PositionBook.ofPositions_kept hbook).2.2, fun h => nomatch h⟩, fun _ h => nomatch h⟩

end

def AddUpExactly (values : List Decimal) : Prop := values.foldl add 0 = values.sum

instance (values : List Decimal) : Decidable (AddUpExactly values) :=
  inferInstanceAs (Decidable (_ = _))

def energySector : List (RegistryCall Unit) := ["A", "B", "C", "D"].map fun assetId =>
  .registerInstrument { assetId := assetId, sector := some "energy", rest := () }

def sectorLimits : List ClassificationLimit := [{
  dimension := sectorDimension
  maxGross := some (10 ^ 10 + 2)
  maxShare := none
  label := none
  refuseUnclassified := false }]

def emptyBook : PositionBook := ⟨.empty, .empty, .empty, none, .empty⟩

/-- A book grouped by the sector's limits, some positions booked, and the exposure valued. -/
def sectorSteps (registry : InstrumentRegistry Unit) (positions : List Position) :
    List (BucketStep Unit) :=
  [.group ⟨0, registry⟩ sectorLimits] ++ positions.map (fun p => .book p.assetId p) ++
    [.resync .empty]

def sectorView (registry : InstrumentRegistry Unit) (positions : List Position) :
    Except BookRefusal BucketView :=
  (sectorSteps registry positions).foldlM (BucketView.step "USD") (.initial emptyBook)

def finePrice : Decimal := 1 / 2 + 5 / 10 ^ 24

def workingCalls (assetId : String) (quantity price : Decimal) (n : ℕ) : List RunCall :=
  [.market (some (assetId, price)) n,
    .order (.allocate (tradeBatch "S" assetId quantity price n)), .order (.place none n)]

/-- One unit each of B and C, then a hundred million of A, all working. -/
def energyRun : Except RunCallRefusal RoutingState :=
  (workingCalls "B" 1 finePrice 1 ++ workingCalls "C" 1 finePrice 2 ++
    workingCalls "A" (10 ^ 8) 100 3).foldlM (runStep { currency := "USD" })
    (.initial { globalCapital := 10 ^ 11, maximumExposure := 10 ^ 11 } (.opened dollarAccount)
      Dict.empty)

def shareTerms : GateTerms where
  config := { settlementCurrencies := ["USD"] }
  rate _ := none
  referencePrice _ := none
  charge _ _ _ := none
  buckets _ _ _ := []
  margin _ := none

def oneMore : OrderRequest where
  orderId := "4"
  strategyId := "S"
  assetId := "D"
  side := .buy
  quantity := 1
  price := 1

end AlphaLab
