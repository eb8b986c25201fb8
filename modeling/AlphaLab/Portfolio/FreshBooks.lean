/-
  Every book its calls reach is the one built from scratch of the same positions.

  * `PositionBook.Kept`: entries, totals and gross are those of the positions; a mapping
    walked once keeps them (`ofPositions_kept`), and so does every call (`call_kept`);
  * `reached_book_is_fresh`: over every run of calls, what is kept is what a fresh book
    keeps whenever one can be built, and a currency or a group is there exactly when a
    position declares it.
-/
import AlphaLab.Portfolio.BookTotals

namespace AlphaLab

open Fallible Tally

/-! ## The gross of a mapping -/

def groupsOf (groups : Option BookGroups) (assetId : String) : List (String × String) :=
  groups.elim [] (·.keysOf assetId)

def Position.heldValue (p : Position) : HeldValue := (p.currency, p.marketValue)

def groupTally (groups : Option BookGroups) (positions : Dict String Position) (key : GroupKey) :
    ℤ × Decimal :=
  positions.sum fun assetId p => shares key (groupsOf groups assetId) (some p.heldValue)

theorem groupTally_counted (groups : Option BookGroups) (positions : Dict String Position)
    (key : GroupKey) : groupTally groups positions key ∈ Counted grossSize := by
  refine (Counted grossSize).list_sum_mem fun x hx => ?_
  obtain ⟨e, -, rfl⟩ := List.mem_map.mp hx
  exact shares_counted _ _ _

theorem shares_none (key : GroupKey) (groups : List (String × String)) :
    shares key groups none = 0 := by
  simp [shares]

theorem groupTally_beside (groups : Option BookGroups) (positions : Dict String Position)
    (assetId : String) (key : GroupKey) :
    groupTally groups positions key = groupTally groups (positions.delete assetId) key +
      shares key (groupsOf groups assetId) ((positions.get? assetId).map Position.heldValue) := by
  rw [groupTally, groupTally, Dict.sum_delete, Dict.sumAt]
  cases positions.get? assetId with
  | none => rw [Option.elim_none, Option.map_none, shares_none, sub_zero, add_zero]
  | some p => rw [Option.elim_some, Option.map_some, sub_add_cancel]

theorem groupTally_set (groups : Option BookGroups) (positions : Dict String Position)
    (assetId : String) (p : Position) (key : GroupKey) :
    groupTally groups (positions.set assetId p) key =
      groupTally groups (positions.delete assetId) key +
        shares key (groupsOf groups assetId) (some p.heldValue) := by
  rw [groupTally, groupTally, Dict.sum_set, Dict.sum_delete]

variable {groups : Option BookGroups} {T T' : GroupTotals} {R : GroupKey → ℤ × Decimal}

/-- **A holding moved in the groups of its asset**, over what the others gross. -/
theorem regrouped_keeps {assetId : String} {before after : Option HeldValue}
    (h : regrouped groups T assetId before after = .ok T')
    (hkeeps : Keeps grossSize T fun key => R key + shares key (groupsOf groups assetId) before)
    (hR : ∀ key, R key ∈ Counted grossSize) :
    Keeps grossSize T' fun key => R key + shares key (groupsOf groups assetId) after := by
  cases groups with
  | none =>
    rw [← pure_ok.mp h]
    exact hkeeps
  | some groups => exact regroup_keeps h hkeeps hR

namespace PositionBook

/-! ## What every book keeps -/

/-- **What a book keeps is of its positions.** -/
structure Kept (book : PositionBook) : Prop where
  entries : book.entries = book.positions.mapValues Position.entry
  totals : Keeps CurrencyTotals.size book.totals (tallyOf book.positions)
  gross : Keeps grossSize book.groupTotals (groupTally book.groups book.positions)

variable {book next : PositionBook} {positions : Dict String Position} {assetId : String}
  {position previous : Position}

theorem ofPositions_kept (h : ofPositions positions = .ok book) :
    book.positions = positions ∧ book.groups = none ∧ book.Kept := by
  obtain ⟨totals, htotals, h⟩ := bind_ok.mp h
  obtain rfl := pure_ok.mp h
  refine ⟨rfl, rfl, rfl, ?_, ?_⟩
  · have hsum := enterAll_keeps htotals keeps_empty fun _ => CurrencyTotals.sound.zero_mem
    have htally : (fun currency => (0 : String → CurrencyTotals) currency +
        (positions.values.map (·.inCurrency currency)).sum) = tallyOf positions := by
      funext currency
      rw [Pi.zero_apply, zero_add, tallyOf, Dict.sum, Dict.values, List.map_map]
      rfl
    rw [htally] at hsum
    exact hsum
  · intro key
    have hnone : groupTally none positions key = 0 := by
      refine List.sum_eq_zero fun x hx => ?_
      obtain ⟨e, -, rfl⟩ := List.mem_map.mp hx
      rfl
    simp [hnone]

theorem Kept.entry (hs : book.Kept) (h : book.positions.get? assetId = some position) :
    book.entries.get? assetId = some position.entry := by
  rw [hs.entries, Dict.get?_mapValues, h, Option.map_some]

theorem Kept.holding (hs : book.Kept) :
    book.holding assetId = (book.positions.get? assetId).map Position.heldValue := by
  cases h : book.positions.get? assetId with
  | none => simp [PositionBook.holding, h]
  | some p => simp [PositionBook.holding, h, hs.entry h, Position.heldValue, Position.entry]

variable {totals : TotalsTable}

theorem Kept.withdrawn (hs : book.Kept) (hget : book.positions.get? assetId = some previous)
    (h : book.withdrawn assetId previous = .ok totals) :
    totals.Reads (tallyOf (book.positions.delete assetId)) := by
  obtain ⟨t, ht, h⟩ := bind_ok.mp h
  obtain ⟨entry, hentry, h⟩ := bind_ok.mp h
  obtain ⟨removed, hremoved, h⟩ := bind_ok.mp h
  obtain rfl := hs.totals.eq_of_some (orRefuse_ok.mp ht)
  rw [hs.entry hget, orRefuse_ok] at hentry
  obtain rfl := Option.some.inj hentry
  have hleft : tallyOf (book.positions.delete assetId) previous.currency =
      tallyOf book.positions previous.currency - previous.contribution := by
    rw [tallyOf_delete hget, Position.inCurrency, if_pos rfl]
  have hsound := tallyOf_sound (book.positions.delete assetId) previous.currency
  rw [hleft] at hsound
  obtain rfl := CurrencyTotals.applyTo_remove hremoved hsound
  rw [← pure_ok.mp h, ← hleft]
  refine reads_set (reads_of_keeps hs.totals (tallyOf_sound _)) fun c hc => ?_
  rw [tallyOf_delete hget, Position.inCurrency, if_neg hc.symm, sub_zero]

theorem Kept.revalued (hs : book.Kept) (hget : book.positions.get? assetId = some previous)
    (hside : sameSide previous position = true) (h : book.revalued assetId position = .ok totals) :
    Keeps CurrencyTotals.size totals (tallyOf (book.positions.set assetId position)) := by
  obtain ⟨t, ht, h⟩ := bind_ok.mp h
  obtain ⟨entry, hentry, h⟩ := bind_ok.mp h
  obtain ⟨moved, hmoved, h⟩ := bind_ok.mp h
  obtain rfl := hs.totals.eq_of_some (orRefuse_ok.mp ht)
  rw [hs.entry hget, orRefuse_ok] at hentry
  obtain rfl := Option.some.inj hentry
  have hcurrency : previous.currency = position.currency := by
    simp only [sameSide, Bool.and_eq_true, decide_eq_true_eq] at hside
    exact hside.1
  have htotal : tallyOf (book.positions.set assetId position) position.currency =
      tallyOf book.positions position.currency - previous.contribution + position.contribution := by
    rw [tallyOf_set, tallyOf_delete hget, Position.inCurrency, if_pos hcurrency,
      Position.inCurrency, if_pos rfl]
  have hsound := tallyOf_sound (book.positions.set assetId position) position.currency
  rw [htotal] at hsound
  obtain rfl := CurrencyTotals.movedTo_eq hside hmoved hsound
  rw [← pure_ok.mp h]
  refine hs.totals.moved ?_ htotal fun c hc => ?_
  · rw [← htotal, tallyOf_set, map_add, Position.inCurrency, if_pos rfl,
      Position.size_contribution]
    have hcount := (tallyOf_sound (book.positions.delete assetId) position.currency).counted.1
    omega
  · rw [tallyOf_set, tallyOf_delete hget, Position.inCurrency, Position.inCurrency,
      if_neg (hcurrency ▸ hc.symm), if_neg hc.symm, sub_zero, add_zero]

theorem Kept.totalsWith (hs : book.Kept) (h : book.totalsWith assetId position = .ok totals) :
    Keeps CurrencyTotals.size totals (tallyOf (book.positions.set assetId position)) := by
  have hentered : ∀ {before : TotalsTable},
      before.Reads (tallyOf (book.positions.delete assetId)) →
      TotalsTable.kept <$> enter before position = .ok totals →
      Keeps CurrencyTotals.size totals (tallyOf (book.positions.set assetId position)) := by
    intro before hreads hmap
    obtain ⟨entered, henter, hmap⟩ := bind_ok.mp hmap
    rw [← pure_ok.mp hmap]
    refine keeps_kept ?_
    intro currency
    rw [enter_reads henter hreads (tallyOf_sound _) currency, tallyOf_set]
  rw [PositionBook.totalsWith] at h
  cases hget : book.positions.get? assetId with
  | none =>
    rw [hget] at h
    refine hentered ?_ h
    rw [Dict.delete_of_none hget]
    exact reads_of_keeps hs.totals (tallyOf_sound _)
  | some previous =>
    rw [hget] at h
    by_cases hside : sameSide previous position = true
    · exact hs.revalued hget hside ((if_pos hside).symm.trans h)
    · obtain ⟨removed, hremoved, h⟩ := bind_ok.mp ((if_neg hside).symm.trans h)
      exact hentered (hs.withdrawn hget hremoved) h

theorem set_kept (hs : book.Kept) (h : book.set assetId position = .ok next) :
    next.positions = book.positions.set assetId position ∧ next.groups = book.groups ∧
      next.Kept := by
  obtain ⟨_, -, h⟩ := bind_ok.mp h
  obtain ⟨gross, hgross, h⟩ := bind_ok.mp h
  obtain ⟨totals, htotals, h⟩ := bind_ok.mp h
  obtain rfl := pure_ok.mp h
  refine ⟨rfl, rfl, ?_, hs.totalsWith htotals, ?_⟩
  · change book.entries.set assetId position.entry = _
    rw [hs.entries, Dict.mapValues_set]
  · rw [hs.holding] at hgross
    have hbeside : Keeps grossSize book.groupTotals fun key =>
        groupTally book.groups (book.positions.delete assetId) key +
          shares key (groupsOf book.groups assetId)
            ((book.positions.get? assetId).map Position.heldValue) := by
      simpa only [← groupTally_beside] using hs.gross
    have hmoved : Keeps grossSize gross fun key =>
        groupTally book.groups (book.positions.delete assetId) key +
          shares key (groupsOf book.groups assetId) (some position.heldValue) :=
      regrouped_keeps hgross hbeside (groupTally_counted _ _)
    simpa only [← groupTally_set] using hmoved

theorem delete_kept (hs : book.Kept) (h : book.delete assetId = .ok next) :
    next.positions = book.positions.delete assetId ∧ next.groups = book.groups ∧ next.Kept := by
  rw [PositionBook.delete] at h
  cases hget : book.positions.get? assetId with
  | none =>
    rw [hget] at h
    obtain rfl := pure_ok.mp h
    exact ⟨(Dict.delete_of_none hget).symm, rfl, hs⟩
  | some previous =>
    rw [hget] at h
    obtain ⟨totals, htotals, h⟩ := bind_ok.mp h
    obtain ⟨gross, hgross, h⟩ := bind_ok.mp h
    obtain rfl := pure_ok.mp h
    refine ⟨rfl, rfl, ?_, keeps_kept (hs.withdrawn hget htotals), ?_⟩
    · change book.entries.delete assetId = _
      rw [hs.entries, Dict.mapValues_delete]
    · rw [hs.holding] at hgross
      have hbeside : Keeps grossSize book.groupTotals fun key =>
          groupTally book.groups (book.positions.delete assetId) key +
            shares key (groupsOf book.groups assetId)
              ((book.positions.get? assetId).map Position.heldValue) := by
        simpa only [← groupTally_beside] using hs.gross
      have hmoved := regrouped_keeps hgross hbeside (groupTally_counted _ _)
      simpa only [shares_none, add_zero] using hmoved

/-- **Positions grouped in turn are grossed**, over what was grossed before. -/
theorem enterGroups_keeps {groups : BookGroups} {l : List (String × Position)}
    (hl : ∀ e ∈ l, book.positions.get? e.1 = some e.2)
    (h : (l.map fun e => (e.1, e.2.entry)).foldlM (book.enterGroups groups) T = .ok T')
    (hkeeps : Keeps grossSize T R) (hR : ∀ key, R key ∈ Counted grossSize) :
    Keeps grossSize T' fun key =>
      R key + (l.map fun e => shares key (groups.keysOf e.1) (some e.2.heldValue)).sum := by
  induction l generalizing T R with
  | nil =>
    obtain rfl := pure_ok.mp h
    simpa using hkeeps
  | cons e l ih =>
    rw [List.map_cons, List.foldlM_cons] at h
    obtain ⟨mid, hmid, h⟩ := bind_ok.mp h
    obtain ⟨p, hp, hmid⟩ := bind_ok.mp hmid
    rw [orRefuse_ok, hl e List.mem_cons_self] at hp
    obtain rfl := Option.some.inj hp
    -- an asset entered is one regrouped from nothing
    have hregrouped : (groups.keysOf e.1).foldlM (regroupOne none (some e.2.heldValue)) T =
        .ok mid := hmid
    have hone := regroup_keeps hregrouped (by simpa only [shares_none, add_zero] using hkeeps) hR
    have hrest := ih (fun e he => hl e (List.mem_cons_of_mem _ he)) h hone fun key =>
      (Counted grossSize).add_mem (hR key) (shares_counted _ _ _)
    simpa only [List.map_cons, List.sum_cons, add_assoc] using hrest

theorem grouped_kept (hs : book.Kept) (h : book.grouped groups = .ok next) :
    next.positions = book.positions ∧ next.groups = groups ∧ next.Kept := by
  cases groups with
  | none =>
    obtain rfl := pure_ok.mp h
    refine ⟨rfl, rfl, hs.entries, hs.totals, fun key => ?_⟩
    have hnone : groupTally none book.positions key = 0 := by
      refine List.sum_eq_zero fun x hx => ?_
      obtain ⟨e, -, rfl⟩ := List.mem_map.mp hx
      rfl
    simp [hnone]
  | some groups =>
    obtain ⟨totals, htotals, h⟩ := bind_ok.mp h
    obtain rfl := pure_ok.mp h
    refine ⟨rfl, rfl, hs.entries, hs.totals, ?_⟩
    rw [hs.entries] at htotals
    have hgross := enterGroups_keeps (l := book.positions.entries)
      (fun e he => (book.positions.get?_eq_some).mpr he) htotals keeps_empty
      fun _ => (Counted grossSize).zero_mem
    have htally : (fun key => (0 : GroupKey → ℤ × Decimal) key + (book.positions.entries.map
        fun e => shares key (groups.keysOf e.1) (some e.2.heldValue)).sum) =
        groupTally (some groups) book.positions := by
      funext key
      rw [Pi.zero_apply, zero_add]
      rfl
    rw [htally] at hgross
    exact hgross

/-- **Every call keeps what a book keeps.** -/
theorem call_kept {c : BookCall} (hs : book.Kept) (h : book.call c = .ok next) : next.Kept := by
  cases c with
  | set assetId position => exact (set_kept hs h).2.2
  | delete assetId => exact (delete_kept hs h).2.2
  | grouped groups => exact (grouped_kept hs h).2.2

theorem Kept.mem_totals (hs : book.Kept) {currency : String} : currency ∈ book.totals.keys ↔
    ∃ assetId p, book.positions.get? assetId = some p ∧ p.currency = currency := by
  rw [hs.totals.mem_keys_sum fun _ _ p => (p.inCurrency_sound _).counted]
  simp only [← Dict.get?_eq_some, Position.inCurrency]
  refine exists_congr fun assetId => exists_congr fun p => and_congr_right fun _ => ?_
  split_ifs with hcurrency <;> simp [hcurrency]

variable {key : GroupKey}

theorem shares_size_ne_zero {groups : List (String × String)} {p : Position} :
    grossSize (shares key groups (some p.heldValue)) ≠ 0 ↔
      p.currency = key.currency ∧ (key.dimension, key.label) ∈ groups := by
  rw [shares, size_sum_ne_zero]
  · simp only [List.mem_map, exists_exists_and_eq_and, Option.elim_some, share, Position.heldValue]
    constructor
    · rintro ⟨group, hgroup, hne⟩
      have hkey : key = ⟨group.1, group.2, p.currency⟩ := by
        by_contra hkey
        exact hne (by rw [if_neg hkey]; rfl)
      rw [hkey]
      exact ⟨rfl, hgroup⟩
    · rintro ⟨hcurrency, hgroup⟩
      refine ⟨_, hgroup, ?_⟩
      rw [if_pos (by rw [hcurrency])]
      exact one_ne_zero
  · intro x hx
    obtain ⟨group, -, rfl⟩ := List.mem_map.mp hx
    exact share_counted _ _ _

theorem Kept.mem_gross (hs : book.Kept) : key ∈ book.groupTotals.keys ↔
    ∃ assetId p, book.positions.get? assetId = some p ∧ p.currency = key.currency ∧
      (key.dimension, key.label) ∈ groupsOf book.groups assetId := by
  rw [hs.gross.mem_keys_sum fun _ _ _ => shares_counted _ _ _]
  simp only [← Dict.get?_eq_some, shares_size_ne_zero]

/-- What a book answers of a group reads its gross in each of the book's currencies. -/
theorem groupGross_of_groups {groups : BookGroups} (h : book.groups = some groups)
    (dimension label : String) :
    (book.groupGross dimension label).map Dict.get? =
      if dimension ∈ groups.dimensions then
        some fun currency => if currency ∈ book.totals.keys then
          (book.groupTotals.get? ⟨dimension, label, currency⟩).map Prod.snd else none
      else none := by
  rw [groupGross, h, Option.bind_eq_bind, Option.bind_some]
  split_ifs with hdimension
  · rw [Option.map_some]
    refine congrArg some (funext fun currency => ?_)
    have hread := Dict.get?_setAll_filterMap book.totals.nodup
      (fun currency => (book.groupTotals.get? ⟨dimension, label, currency⟩).map Prod.snd) currency
    simp only [Option.map_map] at hread
    exact hread
  · rfl

/-- **A book its calls reach is the one built from scratch.**  Over every run of calls from a
    mapping: a currency is in the totals, and a group in the gross, exactly when a position
    of the book declares it; and whenever a fresh book of the same positions can be built and
    grouped the same way, its entries, currencies, totals and gross are the book's. -/
theorem reached_book_is_fresh {start : Dict String Position} {first book : PositionBook}
    (hstart : ofPositions start = .ok first)
    (hrun : Runs PositionBook.call (fun _ _ => True) first book) :
    (∀ currency, currency ∈ book.totals.keys ↔
      ∃ assetId p, book.positions.get? assetId = some p ∧ p.currency = currency) ∧
    (∀ key, key ∈ book.groupTotals.keys ↔
      ∃ assetId p, book.positions.get? assetId = some p ∧ p.currency = key.currency ∧
        (key.dimension, key.label) ∈ groupsOf book.groups assetId) ∧
    ∀ fresh regrouped, ofPositions book.positions = .ok fresh →
      fresh.grouped book.groups = .ok regrouped →
      regrouped.entries = book.entries ∧ regrouped.currencies = book.currencies ∧
        (∀ currency, regrouped.totalsOf currency = book.totalsOf currency) ∧
        ∀ dimension label, (regrouped.groupGross dimension label).map Dict.get? =
          (book.groupGross dimension label).map Dict.get? := by
  have hs : book.Kept := hrun.invariant (P := Kept) (ofPositions_kept hstart).2.2
    fun _ _ _ hP _ hstep => call_kept hP hstep
  refine ⟨fun _ => hs.mem_totals, fun _ => hs.mem_gross, ?_⟩
  intro fresh regrouped hfresh hregrouped
  obtain ⟨hpositions, -, hkept⟩ := ofPositions_kept hfresh
  obtain ⟨hpositions', hgroups, hkept'⟩ := grouped_kept hkept hregrouped
  rw [hpositions] at hpositions'
  have htotals : ∀ currency, regrouped.totals.get? currency = book.totals.get? currency := by
    have hkeeps := hkept'.totals
    rw [hpositions'] at hkeeps
    exact hkeeps.ext hs.totals
  have hgross : ∀ key, regrouped.groupTotals.get? key = book.groupTotals.get? key := by
    have hkeeps := hkept'.gross
    rw [hpositions', hgroups] at hkeeps
    exact hkeeps.ext hs.gross
  have hkeys : ∀ currency, currency ∈ regrouped.totals.keys ↔ currency ∈ book.totals.keys := by
    intro currency
    rw [Dict.mem_keys_iff, Dict.mem_keys_iff, htotals]
  refine ⟨by rw [hkept'.entries, hs.entries, hpositions'], ?_, ?_, ?_⟩
  · refine SortedSet.ext_mem fun currency => ?_
    rw [currencies, currencies, SortedSet.mem_ofList, SortedSet.mem_ofList, hkeys]
  · intro currency
    rw [totalsOf, totalsOf, htotals]
  · intro dimension label
    cases hg : book.groups with
    | none =>
      rw [hg] at hgroups
      rw [groupGross, groupGross, hg, hgroups]
      rfl
    | some groups =>
      rw [groupGross_of_groups (hgroups.trans hg), groupGross_of_groups hg]
      simp only [hkeys, hgross]

def inDollars (assetId : String) (quantity price basis : Decimal) : Position where
  assetId := assetId
  quantity := quantity
  averageCost := 0
  marketPrice := price
  realizedPnl := 0
  currency := "USD"
  lastUpdated := 0
  costBasis := some basis
  openedAt := none
  minorUnits := none
  economics := none
  minorUnits_le := no_units
  unitKnown := rfl

/-- A book of one group, an asset bought and another sold short, the first then sold short. -/
def turningCalls : List BookCall :=
  [.set "A" (inDollars "A" 3 10 30),
    .grouped (some ⟨["sector"],
      .ofList [("A", [("sector", "Energy")]), ("B", [("sector", "Energy")])]⟩),
    .set "B" (inDollars "B" (-2) 10 20), .set "A" (inDollars "A" (-1) 11 10)]

theorem turned_book_is_fresh :
    ∃ first book fresh regrouped, ofPositions .empty = .ok first ∧
      Runs PositionBook.call (fun _ _ => True) first book ∧
      ofPositions book.positions = .ok fresh ∧ fresh.grouped book.groups = .ok regrouped ∧
      (book.totalsOf "USD").longs = 0 ∧ (book.totalsOf "USD").shorts = 2 ∧
      regrouped.totalsOf "USD" = book.totalsOf "USD" ∧
      (regrouped.groupGross "sector" "Energy").map Dict.get? =
        (book.groupGross "sector" "Energy").map Dict.get? := by
  obtain ⟨first, hfirst, hrest⟩ := exists_ok_of (x := ofPositions .empty)
    (fun first => (turningCalls.foldlM PositionBook.call first).toOption.any (fun book =>
      decide (((book.totalsOf "USD").longs = 0 ∧ (book.totalsOf "USD").shorts = 2) ∧
        (ofPositions book.positions).toOption.any (fun fresh =>
          decide ((fresh.grouped book.groups).toOption.isSome = true)) = true)) = true)
    (by decide +kernel)
  obtain ⟨book, hbook, ⟨hlongs, hshorts⟩, hholds⟩ := exists_ok_of _ hrest
  obtain ⟨fresh, hfresh, hgrouped⟩ := exists_ok_of _ hholds
  have hregrouped := ok_getD hgrouped fresh
  have hrun : Runs PositionBook.call (fun _ _ => True) first book :=
    Runs.of_foldlM hbook fun _ _ _ => trivial
  obtain ⟨-, -, hsame⟩ := reached_book_is_fresh hfirst hrun
  obtain ⟨-, -, htotals, hgross⟩ := hsame fresh _ hfresh hregrouped
  exact ⟨first, book, fresh, _, hfirst, hrun, hfresh, hregrouped, hlongs, hshorts, htotals "USD",
    hgross "sector" "Energy"⟩

/-- An asset at its basis, one sold short on a credit of 6e31 more than it costs, another sold
    short and one bought on that basis; then the third gains as the second did, and the first
    gains a cent. -/
def cancellingCalls : List BookCall :=
  [.set "A" (inDollars "A" 1 1 1), .set "B" (inDollars "B" (-1) 1 (6 * 10 ^ 31 + 1)),
    .set "C" (inDollars "C" (-1) 1 1), .set "D" (inDollars "D" 1 1 (6 * 10 ^ 31 + 1)),
    .set "C" (inDollars "C" (-1) 1 (6 * 10 ^ 31 + 1)), .set "A" (inDollars "A" 1 1.01 1)]

/-- **A book that no fresh one matches.**  Every call is accepted, and the unrealized gains
    come to 6e31 and a cent; a fresh book adds the first three first, and is refused. -/
theorem fresh_book_overflows :
    ∃ first book, ofPositions .empty = .ok first ∧
      Runs PositionBook.call (fun _ _ => True) first book ∧
      (book.totalsOf "USD").unrealizedPnl = 6 * 10 ^ 31 + 0.01 ∧
      ∀ fresh, ofPositions book.positions ≠ .ok fresh := by
  obtain ⟨first, hfirst, hrest⟩ := exists_ok_of (x := ofPositions .empty)
    (fun first => (cancellingCalls.foldlM PositionBook.call first).toOption.any (fun book =>
      decide ((book.totalsOf "USD").unrealizedPnl = 6 * 10 ^ 31 + 0.01 ∧
        (refusal (ofPositions book.positions)).isSome)) = true) (by decide +kernel)
  obtain ⟨book, hbook, hgain, hrefused⟩ := exists_ok_of _ hrest
  refine ⟨first, book, hfirst, Runs.of_foldlM hbook fun _ _ _ => trivial, hgain, ?_⟩
  intro fresh hfresh
  rw [hfresh] at hrefused
  cases hrefused

end PositionBook

end AlphaLab
