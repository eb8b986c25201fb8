/-
  Persistent maps that share their stores (`common/persistent_map.py`).

  A map is a view, as of a version, of a store that keeps every value ever written to a key; the
  newest view writes into its store, and any other into a copy of what it shows.

  * `ChainStore` with its reads `lookup`, `live` and `items` and its writes `setNewest` and
    `deleteNewest`; `branch` copies what a version shows;
  * `MapRun` is a tree of writes, each to any of the views made before it;
  * `maps_are_dicts`: every view reads as the dictionary that its own writes give.
-/
import AlphaLab.Lib.Bisect
import AlphaLab.Lib.Dict
import AlphaLab.Lib.Runs

namespace AlphaLab

open Fallible

variable {κ ν : Type} [DecidableEq κ]

/-! ## Stores -/

/-- `_Store`: what a deletion writes is no value. -/
structure ChainStore (κ ν : Type) where
  chains : Dict κ (List (ℕ × Option ν)) := Dict.empty
  insertions : List (κ × ℕ) := []
  /-- The versions of its insertions, of a key inserted more than once. -/
  reinsertions : Dict κ (List ℕ) := Dict.empty
  liveVersion : ℕ := 0
  entries : ℕ := 0

namespace ChainStore

variable (s : ChainStore κ ν) (version : ℕ)

/-- `PersistentMap.__init__`: a key is inserted as it enters the chains. -/
def ofItems (items : List (κ × ν)) : ChainStore κ ν :=
  let chains := items.foldl (fun chains e => chains.set e.1 [(0, some e.2)]) Dict.empty
  { chains := chains
    insertions := chains.keys.map (·, 0)
    entries := chains.keys.length }

/-- `_lookup` -/
def lookup (key : κ) : Option ν :=
  match s.chains.get? key with
  | none => none
  | some chain =>
    if chain.getLast?.any (·.1 ≤ version) then chain.getLast?.bind (·.2)
    else
      let low := bisect chain (·.1 ≤ version)
      if low = 0 then none else chain[low - 1]?.bind (·.2)

/-- The version of the insertion that places a key inserted more than once. -/
def currentOf (history : List ℕ) : Option ℕ :=
  if history.getLast?.any (· ≤ version) then history.getLast?
  -- it is asked of an insertion the version has, so there is one at least
  else history[bisect history (· ≤ version) - 1]?

/-- `_live` -/
def live : List (κ × Option ν) :=
  ((s.insertions.takeWhile (·.2 ≤ version)).filter fun e =>
    (s.reinsertions.get? e.1).all fun history => currentOf version history = some e.2).map
      fun e => (e.1, s.lookup version e.1)

/-- `_iter_items` -/
def items : List (κ × ν) := (s.live version).filterMap fun e => e.2.map (e.1, ·)

/-- `__iter__` -/
def iter : List κ := ((s.live version).filter (·.2.isSome)).map Prod.fst

/-- The loop of `_branch` over the newest version. -/
def newestItems : List (κ × ν) :=
  (s.insertions.filter fun e =>
    (s.reinsertions.get? e.1).all fun history => history.getLast? = some e.2).filterMap fun e =>
      (((s.chains.get? e.1).bind List.getLast?).bind (·.2)).map (e.1, ·)

/-- `_branch` -/
def branch : ChainStore κ ν :=
  if version ≠ s.liveVersion then ofItems (s.items version)
  else { ofItems s.newestItems with
    insertions := s.newestItems.map fun e => (e.1, 0)
    entries := s.newestItems.length }

/-- `set`, to the newest version of a size; the store and the size after it. -/
def setNewest (key : κ) (value : ν) (size : ℕ) : ChainStore κ ν × ℕ :=
  let version := s.liveVersion + 1
  match s.chains.get? key with
  | none => ({ s with
      chains := s.chains.set key [(version, some value)]
      insertions := s.insertions ++ [(key, version)]
      entries := s.entries + 1
      liveVersion := version }, size + 1)
  | some chain =>
    let written := { s with
      chains := s.chains.set key (chain ++ [(version, some value)])
      entries := s.entries + 1
      liveVersion := version }
    if chain.getLast?.any (·.2.isNone) then
      let history := (s.reinsertions.get? key).getD (chain.head?.toList.map Prod.fst)
      ({ written with
        insertions := s.insertions ++ [(key, version)]
        reinsertions := s.reinsertions.set key (history ++ [version]) }, size + 1)
    else (written, size)

/-- `delete`, from the newest version. -/
def deleteNewest (key : κ) (size : ℕ) : ChainStore κ ν × ℕ :=
  let version := s.liveVersion + 1
  ({ s with
    chains := s.chains.set key ((s.chains.get? key).getD [] ++ [(version, none)])
    entries := s.entries + 1
    liveVersion := version }, size - 1)

end ChainStore

/-! ## Views -/

def rebaseFactor : ℕ := 2
def rebaseSlack : ℕ := 64

/-- `PersistentMap`: a view of a store as of a version. -/
structure MapView where
  store : ℕ
  version : ℕ
  size : ℕ

namespace MapView

variable (v : MapView) (stores : List (ChainStore κ ν))

def shown : ChainStore κ ν := stores.getD v.store {}

/-- A write to the store of a view, or to a copy of what it shows where others have gone on or the
store has outgrown it; a copy is neither. -/
def write (op : ChainStore κ ν → ℕ → ChainStore κ ν × ℕ) : List (ChainStore κ ν) × MapView :=
  let s := v.shown stores
  if v.version ≠ s.liveVersion ∨ rebaseFactor * v.size + rebaseSlack < s.entries then
    let copy := s.branch v.version
    let (written, size) := op copy copy.insertions.length
    (stores ++ [written], ⟨stores.length, written.liveVersion, size⟩)
  else
    let (written, size) := op s v.size
    (stores.set v.store written, ⟨v.store, written.liveVersion, size⟩)

/-- **A view reads as a dictionary does.** -/
structure Reports (d : Dict κ ν) : Prop where
  lookup : ∀ key, (v.shown stores).lookup v.version key = d.get? key
  items : (v.shown stores).items v.version = d.entries
  iter : (v.shown stores).iter v.version = d.keys
  size : v.size = d.entries.length

end MapView

/-- One call: a map made of items, or a write to the view of that number. -/
inductive MapCall (κ ν : Type)
  | new (items : List (κ × ν))
  | set (view : ℕ) (key : κ) (value : ν)
  | delete (view : ℕ) (key : κ)

/-- The stores, and every view made so far with what its own writes give. -/
structure MapRun (κ ν : Type) where
  stores : List (ChainStore κ ν) := []
  views : List (MapView × Dict κ ν) := []

namespace MapRun

variable (r : MapRun κ ν)

def made (made : List (ChainStore κ ν) × MapView) (d : Dict κ ν) : MapRun κ ν :=
  ⟨made.1, r.views ++ [(made.2, d)]⟩

def step (r : MapRun κ ν) : MapCall κ ν → Except Unit (MapRun κ ν)
  | .new items =>
    let s := ChainStore.ofItems items
    .ok (r.made (r.stores ++ [s], ⟨r.stores.length, 0, s.insertions.length⟩) (.ofList items))
  | .set view key value => do
    let (v, d) ← orRefuse r.views[view]? ()
    return r.made (v.write r.stores fun s => s.setNewest key value) (d.set key value)
  | .delete view key => do
    let (v, d) ← orRefuse r.views[view]? ()
    require (((v.shown r.stores).lookup v.version key).isSome = true) ()
    return r.made (v.write r.stores fun s => s.deleteNewest key) (d.delete key)

end MapRun

/-! ## What a version shows -/

theorem getLast?_ascending {l : List ℕ} (h : l.Pairwise (· < ·)) {a : ℕ} (ha : a ∈ l) :
    l.getLast? = some a ↔ ∀ b ∈ l, b ≤ a := by
  obtain ⟨front, last, rfl⟩ := (List.eq_nil_or_concat l).resolve_left (List.ne_nil_of_mem ha)
  rw [List.concat_eq_append] at h ha ⊢
  have hle : ∀ b ∈ front ++ [last], b ≤ last := by
    intro b hb
    rcases List.mem_append.mp hb with hb | hb
    · exact ((List.pairwise_append.mp h).2.2 b hb last List.mem_cons_self).le
    · exact (List.mem_singleton.mp hb).le
  rw [List.getLast?_concat, Option.some_inj]
  constructor
  · rintro rfl
    exact hle
  · intro hmost
    exact le_antisymm (hmost last (by simp)) (hle a ha)

section
variable {α : Type} {l : List α} {below : α → Bool}

theorem filter_of_getLast? (h : BelowFirst below l) (hlast : l.getLast?.any below) :
    l.filter below = l := by
  refine List.filter_eq_self.mpr fun a ha => ?_
  obtain ⟨i, hi⟩ := List.mem_iff_getElem?.mp ha
  rw [List.getLast?_eq_getElem?] at hlast
  have hbelow := h.of_le (Nat.le_sub_one_of_lt (List.getElem?_eq_some_iff.mp hi).1) hlast
  rwa [hi] at hbelow

theorem getLast?_filter_below (h : BelowFirst below l) :
    (l.filter below).getLast? = if bisect l below = 0 then none else l[bisect l below - 1]? := by
  rw [bisect_eq h, ← h.takeWhile_eq_filter]
  split_ifs with hnone
  · rw [List.eq_nil_of_length_eq_zero hnone, List.getLast?_nil]
  · have hlt : (l.takeWhile below).length - 1 < (l.takeWhile below).length := by omega
    rw [List.getLast?_eq_getElem?, List.getElem?_eq_getElem hlt,
      (List.takeWhile_prefix below).getElem hlt, List.getElem?_eq_getElem]

end

namespace ChainStore

variable (s : ChainStore κ ν) (version : ℕ)

def written (key : κ) : Option ν :=
  (((s.chains.get? key).getD []).filter (·.1 ≤ version)).getLast?.bind (·.2)

def insertedAt (key : κ) : List ℕ := (s.insertions.filter (·.1 = key)).map Prod.snd

def firstWrite (key : κ) : List ℕ := ((s.chains.get? key).bind List.head?).toList.map Prod.fst

def Placed (e : κ × ℕ) : Prop :=
  e.2 ≤ version ∧ ∀ e' ∈ s.insertions, e'.1 = e.1 → e'.2 ≤ version → e'.2 ≤ e.2

instance (e : κ × ℕ) : Decidable (s.Placed version e) := inferInstanceAs (Decidable (_ ∧ _))

/-- **What a store keeps**: its chains and its insertions ascend, and the insertions of a key are
on record, or are its first write alone. -/
structure Kept : Prop where
  chain : ∀ key chain, s.chains.get? key = some chain →
    chain ≠ [] ∧ chain.Pairwise (·.1 < ·.1) ∧ ∀ e ∈ chain, e.1 ≤ s.liveVersion
  sorted : s.insertions.Pairwise (·.2 ≤ ·.2)
  within : ∀ e ∈ s.insertions, e.2 ≤ s.liveVersion
  ascending : ∀ key, (s.insertedAt key).Pairwise (· < ·)
  history : ∀ key, s.insertedAt key = (s.reinsertions.get? key).getD (s.firstWrite key)
  absent : ∀ key, s.chains.get? key = none → s.reinsertions.get? key = none

structure Shows (d : Dict κ ν) : Prop where
  written : ∀ key, s.written version key = d.get? key
  keys : (s.insertions.filter fun e =>
    s.Placed version e ∧ (s.written version e.1).isSome).map Prod.fst = d.keys

variable {s version} {e : κ × ℕ}

omit [DecidableEq κ] in
theorem chain_below {chain : List (ℕ × Option ν)} (h : chain.Pairwise (·.1 < ·.1)) :
    BelowFirst (fun e => decide (e.1 ≤ version)) chain := by
  refine h.imp fun {a b} hab hb => ?_
  exact decide_eq_true (hab.le.trans (of_decide_eq_true hb))

theorem lookup_eq (h : s.Kept) (key : κ) : s.lookup version key = s.written version key := by
  unfold lookup written
  cases hchain : s.chains.get? key with
  | none => rfl
  | some chain =>
    have hbelow := @chain_below _ version _ (h.chain key chain hchain).2.1
    dsimp only [Option.getD_some]
    split_ifs with hlast hnone
    · rw [filter_of_getLast? hbelow hlast]
    · rw [getLast?_filter_below hbelow, if_pos hnone]
      rfl
    · rw [getLast?_filter_below hbelow, if_neg hnone]

theorem mem_insertedAt {key : κ} {t : ℕ} : t ∈ s.insertedAt key ↔ (key, t) ∈ s.insertions := by
  simp [insertedAt]

theorem Kept.placed_iff (h : s.Kept) (he : e ∈ s.insertions) (hversion : e.2 ≤ version) :
    s.Placed version e ↔ ∀ history ∈ s.reinsertions.get? e.1,
      (history.filter (· ≤ version)).getLast? = some e.2 := by
  have hplaced : s.Placed version e ↔ ∀ t ∈ s.insertedAt e.1, t ≤ version → t ≤ e.2 := by
    simp only [mem_insertedAt]
    refine ⟨fun hp t ht => hp.2 _ ht rfl, fun hp => ⟨hversion, ?_⟩⟩
    rintro ⟨key, t⟩ ht rfl
    exact hp t ht
  have hmem : e.2 ∈ s.insertedAt e.1 := mem_insertedAt.mpr he
  have hascending := h.ascending e.1
  rw [hplaced]
  rw [h.history] at hmem hascending ⊢
  cases hhistory : s.reinsertions.get? e.1 with
  | none =>
    rw [hhistory, Option.getD_none, firstWrite] at hmem
    rw [Option.getD_none, firstWrite]
    refine iff_of_true (fun t ht _ => ?_) (by simp)
    cases hfirst : (s.chains.get? e.1).bind List.head? with
    | none =>
      rw [hfirst] at hmem
      cases hmem
    | some first =>
      rw [hfirst] at hmem ht
      rw [List.mem_singleton.mp hmem, List.mem_singleton.mp ht]
  | some history =>
    rw [hhistory, Option.getD_some] at hmem hascending
    simp only [Option.getD_some, Option.mem_some_iff, forall_eq']
    rw [getLast?_ascending (hascending.filter _) (by simp [hmem, hversion])]
    simp only [List.mem_filter, decide_eq_true_eq, and_imp]

theorem Kept.currentOf_eq (h : s.Kept) {history : List ℕ} (he : e ∈ s.insertions)
    (hversion : e.2 ≤ version) (hhistory : s.reinsertions.get? e.1 = some history) :
    currentOf version history = (history.filter (· ≤ version)).getLast? := by
  have hinserted := h.history e.1
  rw [hhistory, Option.getD_some] at hinserted
  have hbelow : BelowFirst (fun t => decide (t ≤ version)) history := by
    refine (hinserted ▸ h.ascending e.1).imp fun {a b} hab hb => ?_
    exact decide_eq_true (hab.le.trans (of_decide_eq_true hb))
  unfold currentOf
  split_ifs with hlast
  · rw [filter_of_getLast? hbelow hlast]
  · rw [getLast?_filter_below hbelow, if_neg]
    intro hnone
    have hmem : e.2 ∈ history.filter (· ≤ version) := by
      simpa [← hinserted, mem_insertedAt, hversion] using he
    rw [bisect_eq hbelow, hbelow.takeWhile_eq_filter] at hnone
    rw [List.eq_nil_of_length_eq_zero hnone] at hmem
    cases hmem

theorem Kept.live_eq (h : s.Kept) :
    s.live version = (s.insertions.filter fun e => s.Placed version e).map
      fun e => (e.1, s.written version e.1) := by
  have hbelow : BelowFirst (fun e : κ × ℕ => decide (e.2 ≤ version)) s.insertions := by
    refine h.sorted.imp fun {a b} hab hb => ?_
    exact decide_eq_true (hab.trans (of_decide_eq_true hb))
  unfold live
  simp only [lookup_eq h]
  rw [hbelow.takeWhile_eq_filter, List.filter_filter]
  refine congrArg (List.map _) (List.filter_congr fun e he => ?_)
  by_cases hversion : e.2 ≤ version
  · rw [decide_eq_true hversion, Bool.and_true, Bool.eq_iff_iff, decide_eq_true_eq,
      h.placed_iff he hversion, Option.all_eq_true]
    refine forall_congr' fun history => forall_congr' fun hhistory => ?_
    rw [decide_eq_true_eq, h.currentOf_eq he hversion hhistory]
  · simp [Placed, hversion]

theorem Shows.items (hkept : s.Kept) {d : Dict κ ν} (h : s.Shows version d) :
    s.items version = d.entries := by
  rw [ChainStore.items, hkept.live_eq, List.filterMap_map, d.entries_eq, ← h.keys,
    List.filterMap_map]
  simp only [Bool.decide_and, ← List.filter_filter, List.filterMap_filter]
  refine List.filterMap_congr fun e _ => ?_
  simp only [Function.comp_apply, ← h.written]
  cases s.written version e.1 <;> simp

theorem Shows.iter (hkept : s.Kept) {d : Dict κ ν} (h : s.Shows version d) :
    s.iter version = d.keys := by
  rw [ChainStore.iter, hkept.live_eq, List.filter_map, List.map_map, ← h.keys]
  simp only [List.filter_filter, Function.comp_def, Bool.decide_and, Bool.decide_eq_true,
    Bool.and_comm]

/-! ## Copies -/

theorem ofItems_chains (items : List (κ × ν)) :
    (ofItems items).chains = (Dict.ofList items).mapValues fun value => [(0, some value)] := by
  have hfold : ∀ (items : List (κ × ν)) (d : Dict κ ν),
      items.foldl (fun chains e => chains.set e.1 [(0, some e.2)])
        (d.mapValues fun value => [(0, some value)]) =
      (items.foldl (fun d e => d.set e.1 e.2) d).mapValues fun value => [(0, some value)] := by
    intro items
    induction items with
    | nil => exact fun _ => rfl
    | cons e items ih =>
      intro d
      rw [List.foldl_cons, List.foldl_cons, ← ih, Dict.mapValues_set]
  exact hfold items Dict.empty

structure Fresh (s : ChainStore κ ν) (d : Dict κ ν) : Prop where
  chains : s.chains = d.mapValues fun value => [(0, some value)]
  insertions : s.insertions = d.keys.map (·, 0)
  reinsertions : s.reinsertions = Dict.empty
  live : s.liveVersion = 0

theorem fresh_ofItems (items : List (κ × ν)) : Fresh (ofItems items) (Dict.ofList items) := by
  have hkeys : (ofItems items).chains.keys = (Dict.ofList items).keys := by
    rw [ofItems_chains]
    simp [Dict.keys, Dict.mapValues]
  exact ⟨ofItems_chains items, congrArg (List.map (·, 0)) hkeys, rfl, rfl⟩

variable {d : Dict κ ν}

theorem Fresh.insertedAt (h : Fresh s d) (key : κ) :
    s.insertedAt key = if key ∈ d.keys then [0] else [] := by
  have hnodup : d.keys.Nodup := d.nodup
  rw [ChainStore.insertedAt, h.insertions, List.filter_map, List.map_map]
  change (d.keys.filter (· = key)).map (fun _ => 0) = _
  rw [List.filter_eq, hnodup.count]
  split_ifs <;> rfl

theorem Fresh.kept (h : Fresh s d) : s.Kept := by
  have hget : ∀ key, s.chains.get? key = (d.get? key).map fun value => [(0, some value)] := by
    intro key
    rw [h.chains, Dict.get?_mapValues]
  refine ⟨?_, ?_, ?_, ?_, ?_, ?_⟩
  · intro key chain hchain
    rw [hget] at hchain
    obtain ⟨value, -, rfl⟩ := Option.map_eq_some_iff.mp hchain
    simp
  · rw [h.insertions, List.pairwise_map]
    exact List.pairwise_of_forall fun _ _ => le_rfl
  · intro e he
    rw [h.insertions] at he
    obtain ⟨key, -, rfl⟩ := List.mem_map.mp he
    exact Nat.zero_le _
  · intro key
    rw [h.insertedAt]
    split_ifs <;> simp
  · intro key
    rw [h.insertedAt, h.reinsertions, firstWrite, hget]
    cases hkey : d.get? key with
    | none => simp [(d.get?_eq_none).mp hkey]
    | some value => simp [(d.mem_keys_iff).mpr ⟨value, hkey⟩]
  · intro key _
    rw [h.reinsertions]
    rfl

theorem Fresh.shows (h : Fresh s d) : s.Shows 0 d := by
  have hwritten : ∀ key, s.written 0 key = d.get? key := by
    intro key
    rw [ChainStore.written, h.chains, Dict.get?_mapValues]
    cases d.get? key <;> simp
  refine ⟨hwritten, ?_⟩
  have hall : ∀ e ∈ s.insertions, s.Placed 0 e ∧ (s.written 0 e.1).isSome := by
    have hzero : ∀ e ∈ s.insertions, e.2 = 0 := by
      intro e he
      rw [h.insertions] at he
      obtain ⟨key, -, rfl⟩ := List.mem_map.mp he
      rfl
    intro e he
    refine ⟨⟨(hzero e he).le, fun e' he' _ _ => ((hzero e' he').trans (hzero e he).symm).le⟩, ?_⟩
    rw [h.insertions] at he
    obtain ⟨key, hkey, rfl⟩ := List.mem_map.mp he
    obtain ⟨value, hvalue⟩ := (d.mem_keys_iff).mp hkey
    rw [hwritten, hvalue]
    rfl
  rw [List.filter_eq_self.mpr fun e he => decide_eq_true (hall e he), h.insertions, List.map_map]
  exact List.map_id _

theorem Kept.written_live (h : s.Kept) (key : κ) :
    s.written s.liveVersion key = ((s.chains.get? key).bind List.getLast?).bind (·.2) := by
  unfold written
  cases hchain : s.chains.get? key with
  | none => rfl
  | some chain =>
    rw [Option.getD_some, List.filter_eq_self.mpr fun e he =>
      decide_eq_true ((h.chain key chain hchain).2.2 e he)]
    rfl

theorem Kept.newestItems_eq (h : s.Kept) : s.newestItems = s.items s.liveVersion := by
  rw [ChainStore.items, h.live_eq, List.filterMap_map, newestItems]
  have hfilter : (s.insertions.filter fun e =>
      (s.reinsertions.get? e.1).all fun history => history.getLast? = some e.2) =
      s.insertions.filter fun e => s.Placed s.liveVersion e := by
    refine List.filter_congr fun e he => ?_
    rw [Bool.eq_iff_iff, decide_eq_true_eq, h.placed_iff he (h.within e he), Option.all_eq_true]
    refine forall_congr' fun history => forall_congr' fun hhistory => ?_
    have hwhole : history.filter (· ≤ s.liveVersion) = history := by
      refine List.filter_eq_self.mpr fun t ht => decide_eq_true (h.within (e.1, t) ?_)
      rw [← mem_insertedAt, h.history, hhistory]
      exact ht
    rw [hwhole, decide_eq_true_eq]
  rw [hfilter]
  refine List.filterMap_congr fun e _ => ?_
  rw [Function.comp_apply, h.written_live]

/-- **A copy** is written afresh with what the version shows. -/
theorem Shows.branch (hkept : s.Kept) (h : s.Shows version d) : Fresh (s.branch version) d := by
  have hfresh := fresh_ofItems d.entries
  rw [d.ofList_entries] at hfresh
  unfold ChainStore.branch
  split_ifs with hversion
  · rw [h.items hkept]
    exact hfresh
  · obtain rfl := not_not.mp hversion
    rw [hkept.newestItems_eq, h.items hkept]
    refine ⟨hfresh.chains, ?_, hfresh.reinsertions, hfresh.live⟩
    rw [Dict.keys, List.map_map]
    rfl

/-! ## Writes -/

/-- What a write to the newest version does: one more entry of a chain, and an insertion if the key
was absent. -/
structure Writes (s s' : ChainStore κ ν) (key : κ) (value : Option ν) (placed : Bool) : Prop where
  live : s'.liveVersion = s.liveVersion + 1
  chains : s'.chains =
    s.chains.set key ((s.chains.get? key).getD [] ++ [(s.liveVersion + 1, value)])
  insertions : s'.insertions =
    s.insertions ++ if placed then [(key, s.liveVersion + 1)] else []
  others : ∀ a ≠ key, s'.reinsertions.get? a = s.reinsertions.get? a
  history : (s'.reinsertions.get? key).getD (s'.firstWrite key) =
    (s.reinsertions.get? key).getD (s.firstWrite key) ++ if placed then [s.liveVersion + 1] else []

variable {s' : ChainStore κ ν} {key : κ} {value : Option ν} {placed : Bool}

theorem Writes.insertedAt (h : Writes s s' key value placed) (a : κ) :
    s'.insertedAt a =
      s.insertedAt a ++ if a = key ∧ placed then [s.liveVersion + 1] else [] := by
  rw [ChainStore.insertedAt, h.insertions, List.filter_append, List.map_append]
  refine congrArg (s.insertedAt a ++ ·) ?_
  cases placed with
  | false => simp
  | true => by_cases ha : a = key <;> simp [ha, eq_comm]

theorem Writes.get? (h : Writes s s' key value placed) (a : κ) :
    s'.chains.get? a = if a = key then
      some ((s.chains.get? key).getD [] ++ [(s.liveVersion + 1, value)])
    else s.chains.get? a := by
  rw [h.chains, Dict.get?_set]

theorem Writes.kept (hkept : s.Kept) (h : Writes s s' key value placed) : s'.Kept := by
  refine ⟨?_, ?_, ?_, ?_, ?_, ?_⟩
  · intro a chain hchain
    rw [h.get?] at hchain
    rw [h.live]
    split_ifs at hchain with ha
    · obtain rfl := Option.some.inj hchain
      have hbefore : ((s.chains.get? key).getD []).Pairwise (·.1 < ·.1) ∧
          ∀ e ∈ (s.chains.get? key).getD [], e.1 ≤ s.liveVersion := by
        cases hold : s.chains.get? key with
        | none => simp
        | some old => exact (hkept.chain key old hold).2
      refine ⟨by simp, List.pairwise_append.mpr ⟨hbefore.1, List.pairwise_singleton _ _, ?_⟩, ?_⟩
      · intro e he e' he'
        obtain rfl := List.mem_singleton.mp he'
        exact Nat.lt_succ_of_le (hbefore.2 e he)
      · intro e he
        rcases List.mem_append.mp he with he | he
        · exact (hbefore.2 e he).trans (Nat.le_succ _)
        · rw [List.mem_singleton.mp he]
    · obtain ⟨hne, hsorted, hle⟩ := hkept.chain a chain hchain
      exact ⟨hne, hsorted, fun e he => (hle e he).trans (Nat.le_succ _)⟩
  · rw [h.insertions]
    refine List.pairwise_append.mpr ⟨hkept.sorted, by split_ifs <;> simp, ?_⟩
    intro e he e' he'
    split_ifs at he'
    · rw [List.mem_singleton.mp he']
      exact (hkept.within e he).trans (Nat.le_succ _)
    · cases he'
  · intro e he
    rw [h.insertions] at he
    rw [h.live]
    rcases List.mem_append.mp he with he | he
    · exact (hkept.within e he).trans (Nat.le_succ _)
    · split_ifs at he
      · rw [List.mem_singleton.mp he]
      · cases he
  · intro a
    rw [h.insertedAt]
    refine List.pairwise_append.mpr ⟨hkept.ascending a, by split_ifs <;> simp, ?_⟩
    intro t ht t' ht'
    split_ifs at ht'
    · rw [List.mem_singleton.mp ht']
      exact Nat.lt_succ_of_le (hkept.within (a, t) (mem_insertedAt.mp ht))
    · cases ht'
  · intro a
    by_cases ha : a = key
    · subst ha
      rw [h.insertedAt, h.history, hkept.history]
      simp
    · rw [h.insertedAt, if_neg fun hboth => ha hboth.1, List.append_nil, hkept.history,
        h.others a ha, firstWrite, firstWrite, h.get?, if_neg ha]
  · intro a hnone
    rw [h.get?] at hnone
    split_ifs at hnone with ha
    rw [h.others a ha]
    exact hkept.absent a hnone

theorem Writes.insertions_filter (h : Writes s s' key value placed) (p : κ × ℕ → Bool) :
    s'.insertions.filter p =
      s.insertions.filter p ++ (if placed then [(key, s.liveVersion + 1)] else []).filter p := by
  rw [h.insertions, List.filter_append]

/-- **No interference**: a version shows what it did while later ones are written. -/
theorem Writes.shows (hle : version ≤ s.liveVersion) (h : Writes s s' key value placed)
    (hshows : s.Shows version d) : s'.Shows version d := by
  have hlate : ¬ s.liveVersion + 1 ≤ version := by omega
  have hwritten : ∀ a, s'.written version a = s.written version a := by
    intro a
    rw [ChainStore.written, ChainStore.written, h.get?]
    split_ifs with ha
    · subst ha
      rw [Option.getD_some, List.filter_append, List.filter_cons_of_neg (by simpa using hlate)]
      simp
    · rfl
  have hplaced : ∀ e, s'.Placed version e ↔ s.Placed version e := by
    intro e
    simp only [Placed, h.insertions, List.forall_mem_append]
    refine and_congr_right fun _ => and_iff_left ?_
    intro e' he' _ hversion
    split_ifs at he'
    · rw [List.mem_singleton.mp he'] at hversion
      exact absurd hversion hlate
    · cases he'
  refine ⟨fun a => (hwritten a).trans (hshows.written a), ?_⟩
  rw [h.insertions_filter, ← hshows.keys]
  simp only [hwritten, hplaced]
  have hnone : (if placed then [(key, s.liveVersion + 1)] else []).filter
      (fun e => decide (s.Placed version e ∧ (s.written version e.1).isSome)) = [] := by
    refine List.filter_eq_nil_iff.mpr fun e he => ?_
    split_ifs at he
    · rw [List.mem_singleton.mp he]
      simp [Placed, hlate]
    · cases he
  rw [hnone, List.append_nil]

theorem Writes.written_live (hkept : s.Kept) (h : Writes s s' key value placed) (a : κ) :
    s'.written s'.liveVersion a = if a = key then value else s.written s.liveVersion a := by
  rw [(h.kept hkept).written_live, hkept.written_live, h.get?]
  split_ifs <;> simp

/-- **The version written** shows the write: a key that was absent comes last. -/
theorem Writes.shows_live (hkept : s.Kept) (h : Writes s s' key value placed) {d' : Dict κ ν}
    (hshows : s.Shows s.liveVersion d) (hplaced : placed = true → d.get? key = none)
    (hvalue : value.isSome → placed = false → (d.get? key).isSome)
    (hsome : placed = true → value.isSome)
    (hget : ∀ a, d'.get? a = if a = key then value else d.get? a)
    (hkeys : d'.keys = (d.keys.filter fun a => a ≠ key ∨ value.isSome) ++
      if placed then [key] else []) : s'.Shows s'.liveVersion d' := by
  have hwritten := h.written_live hkept
  refine ⟨fun a => ?_, ?_⟩
  · rw [hwritten, hget, hshows.written]
  have hold : s.insertions.filter (fun e =>
        decide (s'.Placed s'.liveVersion e ∧ (s'.written s'.liveVersion e.1).isSome)) =
      (s.insertions.filter fun e =>
        decide (s.Placed s.liveVersion e ∧ (s.written s.liveVersion e.1).isSome)).filter
          fun e => decide (e.1 ≠ key ∨ value.isSome) := by
    rw [List.filter_filter]
    refine List.filter_congr fun e he => ?_
    have hwithin := hkept.within e he
    have hsame : s'.Placed s'.liveVersion e ↔
        s.Placed s.liveVersion e ∧ ¬ (e.1 = key ∧ placed = true) := by
      simp only [Placed, h.insertions, h.live, List.forall_mem_append]
      constructor
      · rintro ⟨-, hall, hnew⟩
        refine ⟨⟨hwithin, fun e' he' hkey hle => hall e' he' hkey (hle.trans (Nat.le_succ _))⟩, ?_⟩
        rintro ⟨hkey, hp⟩
        rw [if_pos hp] at hnew
        exact absurd (hnew _ List.mem_cons_self hkey.symm le_rfl) (by simpa using hwithin)
      · rintro ⟨⟨-, hall⟩, hnot⟩
        refine ⟨hwithin.trans (Nat.le_succ _),
          fun e' he' hkey _ => hall e' he' hkey (hkept.within e' he'), ?_⟩
        intro e' he' hkey _
        split_ifs at he' with hp
        · rw [List.mem_singleton.mp he'] at hkey
          exact absurd ⟨hkey.symm, hp⟩ hnot
        · cases he'
    rw [Bool.eq_iff_iff]
    simp only [decide_eq_true_eq, Bool.and_eq_true, hsame, hwritten, hshows.written]
    by_cases hkey : e.1 = key
    · rw [if_pos hkey, hkey]
      cases placed with
      | false =>
        have hread := fun hv => hvalue hv rfl
        simp only [true_and, Bool.false_eq_true, not_false_eq_true, and_true, ne_eq, not_true,
          false_or]
        tauto
      | true => simp [hplaced rfl]
    · simp [hkey]
  rw [h.insertions_filter, List.map_append, hold, hkeys, ← hshows.keys, List.filter_map]
  refine congrArg (_ ++ ·) ?_
  cases placed with
  | false => rfl
  | true =>
    rw [if_pos rfl, if_pos rfl, List.filter_cons_of_pos]
    · rfl
    · refine decide_eq_true ⟨⟨h.live.ge, fun e' he' _ _ => ?_⟩, ?_⟩
      · exact h.live ▸ (h.kept hkept).within e' he'
      · rw [hwritten, if_pos rfl]
        exact hsome rfl

theorem setNewest_writes (hkept : s.Kept) (key : κ) (value : ν) (size : ℕ) :
    Writes s (s.setNewest key value size).1 key (some value)
        (s.written s.liveVersion key).isNone ∧
      (s.setNewest key value size).2 =
        size + if (s.written s.liveVersion key).isNone then 1 else 0 := by
  rw [hkept.written_live, setNewest]
  cases hchain : s.chains.get? key with
  | none =>
    have habsent := hkept.absent key hchain
    refine ⟨⟨rfl, by rw [hchain]; rfl, rfl, fun _ _ => rfl, ?_⟩, rfl⟩
    simp [firstWrite, hchain, habsent]
  | some chain =>
    obtain ⟨hne, -, -⟩ := hkept.chain key chain hchain
    obtain ⟨first, rest, rfl⟩ := List.exists_cons_of_ne_nil hne
    obtain ⟨last, hlast⟩ := Option.isSome_iff_exists.mp
      (List.getLast?_isSome.mpr (List.cons_ne_nil first rest))
    simp only [hlast, Option.any_some, Option.bind_some]
    cases hvalue : last.2 with
    | none =>
      refine ⟨⟨rfl, by rw [hchain]; rfl, rfl, fun a ha => Dict.get?_set_of_ne _ _ ha, ?_⟩, rfl⟩
      simp [firstWrite, hchain]
    | some old =>
      refine ⟨⟨rfl, by rw [hchain]; rfl, (List.append_nil _).symm, fun _ _ => rfl, ?_⟩, rfl⟩
      simp [firstWrite, hchain]

theorem deleteNewest_writes (hkept : s.Kept) {key : κ}
    (hpresent : (s.written s.liveVersion key).isSome) (size : ℕ) :
    Writes s (s.deleteNewest key size).1 key none false := by
  rw [hkept.written_live] at hpresent
  cases hchain : s.chains.get? key with
  | none =>
    rw [hchain] at hpresent
    cases hpresent
  | some chain =>
    obtain ⟨hne, -, -⟩ := hkept.chain key chain hchain
    obtain ⟨first, rest, rfl⟩ := List.exists_cons_of_ne_nil hne
    refine ⟨rfl, rfl, (List.append_nil _).symm, fun _ _ => rfl, ?_⟩
    simp [firstWrite, hchain, deleteNewest]

end ChainStore

/-! ## What the views see -/

/-- The view is one of a store, and shows the entries of a dictionary and how many. -/
structure MapView.Sees (stores : List (ChainStore κ ν)) (v : MapView) (d : Dict κ ν) : Prop where
  held : v.store < stores.length
  within : v.version ≤ (v.shown stores).liveVersion
  shows : (v.shown stores).Shows v.version d
  size : v.size = d.entries.length

/-- The operation turns a store that shows one dictionary into one that shows another. -/
def Turns (op : ChainStore κ ν → ℕ → ChainStore κ ν × ℕ) (d d' : Dict κ ν) : Prop :=
  ∀ s : ChainStore κ ν, s.Kept → s.Shows s.liveVersion d →
    (∃ key value placed, s.Writes (op s d.entries.length).1 key value placed) ∧
      (op s d.entries.length).1.Shows (op s d.entries.length).1.liveVersion d' ∧
      (op s d.entries.length).2 = d'.entries.length

theorem turns_set (d : Dict κ ν) (key : κ) (value : ν) :
    Turns (fun s => s.setNewest key value) d (d.set key value) := by
  intro s hkept hshows
  obtain ⟨hwrites, hsize⟩ := ChainStore.setNewest_writes hkept key value d.entries.length
  have hkeys := d.keys_set key value
  have hmem := (d.get?_eq_none (k := key)).not
  rw [hshows.written] at hwrites hsize
  refine ⟨⟨key, some value, _, hwrites⟩, ?_, ?_⟩
  · refine hwrites.shows_live hkept hshows Option.isNone_iff_eq_none.mp (fun _ hp => ?_)
      (fun _ => rfl) (fun a => d.get?_set key a value) ?_
    · cases hread : d.get? key <;> simp_all
    · rw [hkeys]
      cases hread : d.get? key <;> simp_all
  · have hlength : ∀ e : Dict κ ν, e.entries.length = e.keys.length := fun e =>
      (List.length_map _).symm
    rw [hsize, hlength (d.set key value), hkeys, hlength]
    cases hread : d.get? key <;> simp_all

theorem turns_delete {d : Dict κ ν} {key : κ} (hpresent : (d.get? key).isSome) :
    Turns (fun s => s.deleteNewest key) d (d.delete key) := by
  intro s hkept hshows
  have hwrites := ChainStore.deleteNewest_writes hkept
    (by rwa [hshows.written]) d.entries.length
  have hkeys : (d.delete key).keys = d.keys.filter (· ≠ key) := by
    rw [Dict.keys, Dict.keys, List.filter_map]
    rfl
  refine ⟨⟨key, none, false, hwrites⟩, ?_, ?_⟩
  · refine hwrites.shows_live hkept hshows (by simp) (by simp) (by simp)
      (fun a => d.get?_delete key a) ?_
    simpa using hkeys
  · have hnodup : d.keys.Nodup := d.nodup
    have hmem : key ∈ d.keys := d.mem_keys_iff.mpr (Option.isSome_iff_exists.mp hpresent)
    have hlength : (d.delete key).keys.length = d.keys.length - 1 := by
      rw [hkeys, ← List.length_erase_of_mem hmem, hnodup.erase_eq_filter]
      simp only [ne_eq, decide_not, bne, beq_eq_decide]
    rw [Dict.keys, Dict.keys, List.length_map, List.length_map] at hlength
    exact hlength.symm

section
variable {stores : List (ChainStore κ ν)} {v : MapView} {d d' : Dict κ ν}

theorem MapView.Sees.shown_mem (h : v.Sees stores d) : v.shown stores ∈ stores := by
  rw [shown, List.getD_eq_getElem?_getD, List.getElem?_eq_getElem h.held]
  exact List.getElem_mem h.held

/-- A store beside which another is put, or that is written to, is seen as it was. -/
theorem MapView.Sees.beside (h : v.Sees stores d) (s : ChainStore κ ν) :
    v.Sees (stores ++ [s]) d := by
  have hshown : v.shown (stores ++ [s]) = v.shown stores := by
    rw [shown, shown, List.getD_eq_getElem?_getD, List.getElem?_append_left h.held,
      ← List.getD_eq_getElem?_getD]
  refine ⟨h.held.trans_le (by simp), ?_, ?_, h.size⟩
  · rw [hshown]
    exact h.within
  · rw [hshown]
    exact h.shows

omit [DecidableEq κ] in
theorem shown_last (stores : List (ChainStore κ ν)) (s : ChainStore κ ν) (version size : ℕ) :
    (MapView.mk stores.length version size).shown (stores ++ [s]) = s := by
  simp [MapView.shown]

theorem MapView.Sees.reports (h : v.Sees stores d) (hkept : ∀ s ∈ stores, s.Kept) :
    v.Reports stores d := by
  have hshown := hkept _ h.shown_mem
  exact ⟨fun key => (ChainStore.lookup_eq hshown key).trans (h.shows.written key),
    h.shows.items hshown, h.shows.iter hshown, h.size⟩

/-- **A write** makes a view of what it gives, and every other view sees what it saw. -/
theorem MapView.Sees.write {op : ChainStore κ ν → ℕ → ChainStore κ ν × ℕ}
    (hkept : ∀ s ∈ stores, s.Kept) (h : v.Sees stores d) (hop : Turns op d d') :
    (∀ s ∈ (v.write stores op).1, s.Kept) ∧
      (v.write stores op).2.Sees (v.write stores op).1 d' ∧
      ∀ w e, MapView.Sees stores w e → w.Sees (v.write stores op).1 e := by
  have hshown := hkept _ h.shown_mem
  unfold MapView.write
  dsimp only
  split_ifs with hcopy
  · have hfresh := h.shows.branch hshown
    have hlength : ((v.shown stores).branch v.version).insertions.length = d.entries.length := by
      rw [hfresh.insertions, List.length_map, Dict.keys, List.length_map]
    rw [hlength]
    obtain ⟨⟨key, value, placed, hwrites⟩, hshows, hsize⟩ :=
      hop _ hfresh.kept (hfresh.live ▸ hfresh.shows)
    refine ⟨?_, ⟨by simp, ?_, ?_, hsize⟩, fun w e hw => hw.beside _⟩
    · intro s hs
      rcases List.mem_append.mp hs with hs | hs
      · exact hkept s hs
      · rw [List.mem_singleton.mp hs]
        exact hwrites.kept hfresh.kept
    · rw [shown_last]
    · rw [shown_last]
      exact hshows
  · rw [not_or, not_not] at hcopy
    have hnewest := h.shows
    rw [hcopy.1] at hnewest
    rw [h.size]
    obtain ⟨⟨key, value, placed, hwrites⟩, hshows, hsize⟩ := hop _ hshown hnewest
    have hself : ∀ w : MapView, w.store = v.store →
        w.shown (stores.set v.store (op (v.shown stores) d.entries.length).1) =
          (op (v.shown stores) d.entries.length).1 := by
      intro w hw
      simp [shown, hw, List.getD_eq_getElem?_getD, h.held]
    refine ⟨?_, ⟨by simpa using h.held, (congrArg ChainStore.liveVersion (hself _ rfl)).ge,
      (hself _ rfl).symm ▸ hshows, hsize⟩, ?_⟩
    · intro s hs
      rcases List.mem_or_eq_of_mem_set hs with hs | rfl
      · exact hkept s hs
      · exact hwrites.kept hshown
    · intro w e hw
      by_cases hstore : w.store = v.store
      · have hbefore : w.shown stores = v.shown stores := by rw [shown, shown, hstore]
        have hafter := hself w hstore
        have hwithin := hbefore ▸ hw.within
        refine ⟨by simpa using hw.held, ?_, ?_, hw.size⟩
        · rw [hafter, hwrites.live]
          exact hwithin.trans (Nat.le_succ _)
        · rw [hafter]
          exact hwrites.shows hwithin (hbefore ▸ hw.shows)
      · have hother : w.shown (stores.set v.store (op (v.shown stores) d.entries.length).1) =
            w.shown stores := by
          simp [shown, List.getD_eq_getElem?_getD, List.getElem?_set_ne (Ne.symm hstore)]
        refine ⟨by simpa using hw.held, ?_, ?_, hw.size⟩
        · rw [hother]
          exact hw.within
        · rw [hother]
          exact hw.shows

end

def MapRun.AllSeen (r : MapRun κ ν) : Prop :=
  (∀ s ∈ r.stores, s.Kept) ∧ ∀ v ∈ r.views, v.1.Sees r.stores v.2

/-- **One call** leaves every view as it was, and its own as it should be. -/
theorem MapRun.AllSeen.step {r r' : MapRun κ ν} (h : r.AllSeen) {c : MapCall κ ν}
    (hstep : r.step c = .ok r') : r'.AllSeen := by
  have hview : ∀ {view : ℕ} {v : MapView × Dict κ ν}, orRefuse r.views[view]? () = .ok v →
      v.1.Sees r.stores v.2 := fun hv => h.2 _ (List.mem_of_getElem? (orRefuse_ok.mp hv))
  have hmade : ∀ {made : List (ChainStore κ ν) × MapView} {d : Dict κ ν},
      ((∀ s ∈ made.1, s.Kept) ∧ made.2.Sees made.1 d ∧
        ∀ w e, MapView.Sees r.stores w e → w.Sees made.1 e) → (r.made made d).AllSeen := by
    intro made d hmade
    refine ⟨hmade.1, fun v hv => ?_⟩
    rcases List.mem_append.mp hv with hv | hv
    · exact hmade.2.2 _ _ (h.2 v hv)
    · rw [List.mem_singleton.mp hv]
      exact hmade.2.1
  cases c with
  | new items =>
    obtain rfl := ok_inj.mp hstep
    have hfresh := ChainStore.fresh_ofItems items
    refine hmade ⟨?_, ⟨by simp, by rw [shown_last]; exact Nat.zero_le _,
      by rw [shown_last]; exact hfresh.shows, ?_⟩, fun w e hw => hw.beside _⟩
    · intro s hs
      rcases List.mem_append.mp hs with hs | hs
      · exact h.1 s hs
      · rw [List.mem_singleton.mp hs]
        exact hfresh.kept
    · rw [hfresh.insertions, List.length_map, Dict.keys, List.length_map]
  | set view key value =>
    obtain ⟨⟨v, d⟩, hv, hstep⟩ := bind_ok.mp hstep
    obtain rfl := pure_ok.mp hstep
    exact hmade ((hview hv).write h.1 (turns_set d key value))
  | delete view key =>
    obtain ⟨⟨v, d⟩, hv, hstep⟩ := bind_ok.mp hstep
    obtain ⟨_, hpresent, hstep⟩ := bind_ok.mp hstep
    obtain rfl := pure_ok.mp hstep
    have hsees := hview hv
    refine hmade (hsees.write h.1 (turns_delete ?_))
    rw [← (hsees.reports h.1).lookup]
    exact require_ok.mp hpresent

/-- **Persistent maps are dictionaries**: after any tree of writes, every view made reads as the
    dictionary that its own writes give, whatever was written through other views. -/
theorem maps_are_dicts {r : MapRun κ ν} (h : Runs MapRun.step (fun _ _ => True) {} r) :
    ∀ v ∈ r.views, v.1.Reports r.stores v.2 := by
  have hseen : r.AllSeen := by
    refine h.invariant MapRun.AllSeen ⟨nofun, nofun⟩ ?_
    intro s c t hs _ hstep
    exact hs.step hstep
  exact fun v hv => (hseen.2 v hv).reports hseen.1

/-- A key is deleted and comes back in one branch, and is rewritten in another. -/
def branchedCalls : List (MapCall ℕ ℕ) :=
  [.new [(1, 10), (2, 20)], .delete 0 1, .set 1 1 11, .set 0 1 12]

theorem maps_are_dicts_branched :
    ∃ r : MapRun ℕ ℕ, Runs MapRun.step (fun _ _ => True) {} r ∧
      (∀ v ∈ r.views, v.1.Reports r.stores v.2) ∧ r.views.map (·.2.entries) =
        [[(1, 10), (2, 20)], [(2, 20)], [(2, 20), (1, 11)], [(1, 12), (2, 20)]] := by
  obtain ⟨r, hrun, hviews⟩ := exists_ok_of (x := branchedCalls.foldlM MapRun.step {})
    (fun r => r.views.map (·.2.entries) =
      [[(1, 10), (2, 20)], [(2, 20)], [(2, 20), (1, 11)], [(1, 12), (2, 20)]]) (by decide +kernel)
  have hreached := Runs.of_foldlM hrun fun _ _ _ => trivial
  exact ⟨r, hreached, maps_are_dicts hreached, hviews⟩

end AlphaLab
