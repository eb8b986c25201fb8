/-
  Dictionaries that keep the order in which their keys were first set.

  A `Dict κ ν` is a list of entries with distinct keys: setting a key that is
  present replaces its value in place, setting a new one appends, and deleting
  keeps the order of the rest.  (`AList.insert` puts the new entry in front,
  so it is not this structure.)

  * `sum_set`, `sum_delete`: how a sum over the entries moves; `setAll` sets several
    entries, `sum_setAll_new` is what new ones add;
  * `sorted`: the same entries in the order of their keys, which is all that
    two dictionaries that read the same share (`sorted_eq_iff`).
-/
import Mathlib.Algebra.BigOperators.Group.List.Basic
import Mathlib.Data.List.Nodup
import Mathlib.Data.List.Sort
import Mathlib.Tactic

/-- Entries with distinct keys, in the order the keys were first set. -/
structure Dict (κ ν : Type*) where
  entries : List (κ × ν)
  nodup : (entries.map Prod.fst).Nodup
deriving DecidableEq

namespace Dict

variable {κ ν M : Type*}

@[ext] theorem ext {d e : Dict κ ν} (h : d.entries = e.entries) : d = e := by
  cases d
  cases e
  simpa using h

def empty : Dict κ ν := ⟨[], by simp⟩

instance : Inhabited (Dict κ ν) := ⟨empty⟩

def keys (d : Dict κ ν) : List κ := d.entries.map Prod.fst

def values (d : Dict κ ν) : List ν := d.entries.map Prod.snd

/-- The sum of `f` over the entries. -/
def sum [AddCommMonoid M] (d : Dict κ ν) (f : κ → ν → M) : M :=
  (d.entries.map fun e => f e.1 e.2).sum

@[simp] theorem keys_empty : (empty : Dict κ ν).keys = [] := rfl
@[simp] theorem entries_empty : (empty : Dict κ ν).entries = [] := rfl
@[simp] theorem sum_empty [AddCommMonoid M] (f : κ → ν → M) : (empty : Dict κ ν).sum f = 0 := rfl

section
variable [DecidableEq κ]

/-! ## Entry lists -/

/-- `l` with `k` set to `v`: in place if present, else at the end. -/
def setList (k : κ) (v : ν) : List (κ × ν) → List (κ × ν)
  | [] => [(k, v)]
  | e :: l => if e.1 = k then (k, v) :: l else e :: setList k v l

/-- The first value of `k` in `l`. -/
def getList (k : κ) : List (κ × ν) → Option ν
  | [] => none
  | e :: l => if e.1 = k then some e.2 else getList k l

variable {k a : κ} {v : ν} {l : List (κ × ν)}

theorem mem_map_setList : a ∈ (setList k v l).map Prod.fst ↔ a = k ∨ a ∈ l.map Prod.fst := by
  induction l with
  | nil => simp [setList]
  | cons e l ih =>
    by_cases h : e.1 = k
    · simp [setList, h]
    · simp only [setList, if_neg h, List.map_cons, List.mem_cons, ih]
      tauto

theorem nodup_setList (k : κ) (v : ν) (h : (l.map Prod.fst).Nodup) :
    ((setList k v l).map Prod.fst).Nodup := by
  induction l with
  | nil => simp [setList]
  | cons e l ih =>
    rw [List.map_cons, List.nodup_cons] at h
    by_cases he : e.1 = k
    · subst he
      simpa [setList] using h
    · simp only [setList, if_neg he, List.map_cons, List.nodup_cons, mem_map_setList, not_or]
      exact ⟨⟨he, h.1⟩, ih h.2⟩

theorem getList_eq_none : getList k l = none ↔ k ∉ l.map Prod.fst := by
  induction l with
  | nil => simp [getList]
  | cons e l ih =>
    by_cases he : e.1 = k
    · simp [getList, he]
    · simp only [getList, if_neg he, ih, List.map_cons, List.mem_cons, not_or]
      exact ⟨fun h => ⟨Ne.symm he, h⟩, And.right⟩

theorem getList_setList (k a : κ) (v : ν) (l : List (κ × ν)) :
    getList a (setList k v l) = if a = k then some v else getList a l := by
  induction l with
  | nil => simp [setList, getList, eq_comm]
  | cons e l ih =>
    by_cases he : e.1 = k
    · subst he
      by_cases ha : a = e.1
      · simp [setList, getList, ha]
      · simp [setList, getList, ha, Ne.symm ha]
    · by_cases ha : a = k
      · subst ha
        simp [setList, getList, he, ih]
      · simp [setList, getList, he, ih, ha]

theorem getList_filter (k a : κ) (l : List (κ × ν)) :
    getList a (l.filter (·.1 ≠ k)) = if a = k then none else getList a l := by
  induction l with
  | nil => simp [getList]
  | cons e l ih =>
    by_cases he : e.1 = k <;> by_cases ha : a = k <;> grind [getList]

/-! ## Reading and writing -/

/-- The value at `k`, if it is set. -/
def get? (d : Dict κ ν) (k : κ) : Option ν := getList k d.entries

/-- `d` with `k` set to `v`. -/
def set (d : Dict κ ν) (k : κ) (v : ν) : Dict κ ν :=
  ⟨setList k v d.entries, nodup_setList k v d.nodup⟩

/-- `d` without `k`. -/
def delete (d : Dict κ ν) (k : κ) : Dict κ ν :=
  ⟨d.entries.filter (·.1 ≠ k),
    d.nodup.sublist (List.Sublist.map Prod.fst List.filter_sublist)⟩

/-- The dictionary that setting the entries of a list in turn builds. -/
def ofList (l : List (κ × ν)) : Dict κ ν := l.foldl (fun d e => d.set e.1 e.2) empty

@[simp] theorem get?_empty (k : κ) : (empty : Dict κ ν).get? k = none := rfl

theorem get?_set (d : Dict κ ν) (k a : κ) (v : ν) :
    (d.set k v).get? a = if a = k then some v else d.get? a :=
  getList_setList k a v d.entries

@[simp] theorem get?_set_self (d : Dict κ ν) (k : κ) (v : ν) : (d.set k v).get? k = some v := by
  simp [get?_set]

theorem get?_set_of_ne (d : Dict κ ν) (v : ν) (h : a ≠ k) : (d.set k v).get? a = d.get? a := by
  simp [get?_set, h]

theorem get?_delete (d : Dict κ ν) (k a : κ) :
    (d.delete k).get? a = if a = k then none else d.get? a :=
  getList_filter k a d.entries

@[simp] theorem get?_delete_self (d : Dict κ ν) (k : κ) : (d.delete k).get? k = none := by
  simp [get?_delete]

variable {d : Dict κ ν}

theorem delete_of_none (h : d.get? k = none) : d.delete k = d := by
  refine ext (List.filter_eq_self.mpr fun e he => ?_)
  have hkey : e.1 ≠ k := by
    rintro rfl
    exact getList_eq_none.mp h (List.mem_map_of_mem he)
  simpa using hkey

theorem get?_eq_none (d : Dict κ ν) : d.get? k = none ↔ k ∉ d.keys := getList_eq_none

theorem mem_keys_iff (d : Dict κ ν) : k ∈ d.keys ↔ ∃ v, d.get? k = some v := by
  rw [← not_iff_not, ← get?_eq_none, Option.eq_none_iff_forall_ne_some]
  push Not
  rfl

theorem mem_keys_set (d : Dict κ ν) :
    a ∈ (d.set k v).keys ↔ a = k ∨ a ∈ d.keys :=
  mem_map_setList

theorem mem_keys_delete (d : Dict κ ν) : a ∈ (d.delete k).keys ↔ a ≠ k ∧ a ∈ d.keys := by
  simp only [mem_keys_iff, get?_delete]
  by_cases h : a = k <;> simp [h]

theorem get?_eq_some (d : Dict κ ν) : d.get? k = some v ↔ (k, v) ∈ d.entries := by
  obtain ⟨l, hl⟩ := d
  simp only [get?]
  induction l with
  | nil => simp [getList]
  | cons e l ih =>
    rw [List.map_cons, List.nodup_cons] at hl
    by_cases he : e.1 = k
    · subst he
      have hv : (e.1, v) ∉ l := fun h => hl.1 (List.mem_map.mpr ⟨_, h, rfl⟩)
      simp [getList, hv, Prod.ext_iff, eq_comm]
    · have hne : (k, v) ≠ e := fun h => he (h ▸ rfl)
      simp [getList, he, hne, ih hl.2]

theorem entries_eq (d : Dict κ ν) :
    d.entries = d.keys.filterMap fun k => (d.get? k).map (k, ·) := by
  rw [keys, List.filterMap_map]
  conv_lhs => rw [← List.filterMap_some (l := d.entries)]
  refine List.filterMap_congr fun e he => ?_
  rw [Function.comp_apply, d.get?_eq_some.mpr he]
  rfl

theorem mem_values : v ∈ d.values ↔ ∃ k, d.get? k = some v := by
  rw [values, List.mem_map]
  constructor
  · rintro ⟨e, he, rfl⟩
    exact ⟨e.1, d.get?_eq_some.mpr he⟩
  · rintro ⟨k, hk⟩
    exact ⟨(k, v), d.get?_eq_some.mp hk, rfl⟩

theorem mem_values_of_set {v w : ν} (h : w ∈ (d.set k v).values) : w = v ∨ w ∈ d.values := by
  obtain ⟨a, ha⟩ := mem_values.mp h
  rw [get?_set] at ha
  split_ifs at ha
  · exact Or.inl (Option.some.inj ha).symm
  · exact Or.inr (mem_values.mpr ⟨a, ha⟩)

/-! ## Sums over the entries -/

section
variable [AddCommGroup M]

/-- What the entry of `k` contributes to a sum. -/
def sumAt (d : Dict κ ν) (f : κ → ν → M) (k : κ) : M := (d.get? k).elim 0 (f k)

omit [DecidableEq κ] in
private theorem sum_map_filter [DecidableEq κ] (f : κ → ν → M) (k : κ) (h : (l.map Prod.fst).Nodup)
    :
    ((l.filter (·.1 ≠ k)).map fun e => f e.1 e.2).sum =
      (l.map fun e => f e.1 e.2).sum - (getList k l).elim 0 (f k) := by
  induction l with
  | nil => simp [getList]
  | cons e l ih =>
    rw [List.map_cons, List.nodup_cons] at h
    by_cases he : e.1 = k
    · subst he
      have hn : getList e.1 l = none := getList_eq_none.mpr h.1
      have hi := ih h.2
      rw [hn] at hi
      simp_all [getList]
    · have hi := ih h.2
      simp only [ne_eq, decide_not] at hi
      simp [getList, he, hi, add_sub_assoc]

theorem sum_delete (d : Dict κ ν) (f : κ → ν → M) (k : κ) :
    (d.delete k).sum f = d.sum f - d.sumAt f k :=
  sum_map_filter f k d.nodup

theorem sum_set (d : Dict κ ν) (f : κ → ν → M) (k : κ) (v : ν) :
    (d.set k v).sum f = d.sum f - d.sumAt f k + f k v := by
  obtain ⟨l, hl⟩ := d
  simp only [sum, set, sumAt, get?]
  clear hl
  induction l with
  | nil => simp [setList, getList]
  | cons e l ih =>
    by_cases he : e.1 = k
    · subst he
      simp [setList, getList]
      abel
    · simp only [setList, if_neg he, List.map_cons, List.sum_cons, ih, getList]
      abel

theorem sum_of_only (d : Dict κ ν) (f : κ → ν → M) (h : ∀ a v, d.get? a = some v → a = k) :
    d.sum f = d.sumAt f k := by
  have hnone : (d.delete k).entries = [] := by
    refine List.filter_eq_nil_iff.mpr fun e he => ?_
    simpa using h e.1 e.2 ((d.get?_eq_some).mpr he)
  have hzero : (d.delete k).sum f = 0 := by rw [sum, hnone, List.map_nil, List.sum_nil]
  rw [sum_delete, sub_eq_zero] at hzero
  exact hzero

end

theorem sum_sumAt_le [AddCommGroup M] [PartialOrder M] [IsOrderedAddMonoid M] (d : Dict κ ν)
    (f : κ → ν → M) (hf : ∀ k v, d.get? k = some v → 0 ≤ f k v) {keys : List κ}
    (hkeys : keys.Nodup) : (keys.map (d.sumAt f)).sum ≤ d.sum f := by
  induction keys generalizing d with
  | nil =>
    refine List.sum_nonneg fun x hx => ?_
    obtain ⟨e, he, rfl⟩ := List.mem_map.mp hx
    exact hf e.1 e.2 ((d.get?_eq_some).mpr he)
  | cons k keys ih =>
    rw [List.nodup_cons] at hkeys
    have hrest : (keys.map (d.sumAt f)) = keys.map ((d.delete k).sumAt f) := by
      refine List.map_congr_left fun a ha => ?_
      have hne : a ≠ k := by
        rintro rfl
        exact hkeys.1 ha
      rw [sumAt, sumAt, get?_delete, if_neg hne]
    have hdelete : (keys.map ((d.delete k).sumAt f)).sum ≤ (d.delete k).sum f := by
      refine ih (d.delete k) (fun a v ha => ?_) hkeys.2
      rw [get?_delete] at ha
      split_ifs at ha
      exact hf a v ha
    rw [List.map_cons, List.sum_cons, hrest]
    calc d.sumAt f k + (keys.map ((d.delete k).sumAt f)).sum
        ≤ d.sumAt f k + (d.delete k).sum f := by gcongr
      _ = d.sum f := by rw [sum_delete, add_sub_cancel]

theorem sum_congr [AddCommMonoid M] (d : Dict κ ν) {f g : κ → ν → M}
    (h : ∀ k v, d.get? k = some v → f k v = g k v) : d.sum f = d.sum g := by
  refine congrArg List.sum (List.map_congr_left fun e he => ?_)
  exact h e.1 e.2 ((d.get?_eq_some).mpr he)

def mapValues {μ : Type*} (d : Dict κ ν) (f : ν → μ) : Dict κ μ :=
  ⟨d.entries.map fun e => (e.1, f e.2), by
    have hkeys : (d.entries.map fun e => (e.1, f e.2)).map Prod.fst = d.entries.map Prod.fst := by
      rw [List.map_map]
      rfl
    exact hkeys ▸ d.nodup⟩

theorem get?_mapValues {μ : Type*} (d : Dict κ ν) (f : ν → μ) (k : κ) :
    (d.mapValues f).get? k = (d.get? k).map f := by
  obtain ⟨l, hl⟩ := d
  change getList k (l.map fun e => (e.1, f e.2)) = (getList k l).map f
  clear hl
  induction l with
  | nil => rfl
  | cons e l ih =>
    by_cases he : e.1 = k
    · simp [getList, he]
    · simpa [getList, he] using ih

theorem mapValues_set {μ : Type*} (d : Dict κ ν) (f : ν → μ) (k : κ) (v : ν) :
    (d.set k v).mapValues f = (d.mapValues f).set k (f v) := by
  obtain ⟨l, hl⟩ := d
  refine Dict.ext ?_
  change (setList k v l).map (fun e => (e.1, f e.2)) = setList k (f v) (l.map fun e => (e.1, f e.2))
  clear hl
  induction l with
  | nil => rfl
  | cons e l ih =>
    by_cases he : e.1 = k
    · simp [setList, he]
    · simp [setList, he, ih]

theorem mapValues_delete {μ : Type*} (d : Dict κ ν) (f : ν → μ) (k : κ) :
    (d.delete k).mapValues f = (d.mapValues f).delete k := by
  refine Dict.ext ?_
  change (d.entries.filter (·.1 ≠ k)).map (fun e => (e.1, f e.2)) =
    (d.entries.map fun e => (e.1, f e.2)).filter (·.1 ≠ k)
  rw [List.filter_map]
  rfl

/-- `d` with each entry of `l` set, one after another. -/
def setAll (d : Dict κ ν) (l : List (κ × ν)) : Dict κ ν := l.foldl (fun d e => d.set e.1 e.2) d

theorem get?_setAll_of_notMem (h : k ∉ l.map Prod.fst) : (d.setAll l).get? k = d.get? k := by
  induction l generalizing d with
  | nil => rfl
  | cons e l ih =>
    rw [List.map_cons, List.mem_cons, not_or] at h
    rw [setAll, List.foldl_cons]
    exact (ih (d := d.set e.1 e.2) h.2).trans (get?_set_of_ne _ _ h.1)

theorem get?_setAll_of_mem (hl : (l.map Prod.fst).Nodup) {e : κ × ν} (he : e ∈ l) :
    (d.setAll l).get? e.1 = some e.2 := by
  induction l generalizing d with
  | nil => cases he
  | cons first l ih =>
    rw [List.map_cons, List.nodup_cons] at hl
    rcases List.mem_cons.mp he with rfl | he
    · exact (get?_setAll_of_notMem hl.1).trans (get?_set_self _ _ _)
    · exact ih hl.2 he

theorem get?_setAll_filterMap {keys : List κ} (hkeys : keys.Nodup) (f : κ → Option ν) (k : κ) :
    (empty.setAll (keys.filterMap fun a => (f a).map fun v => (a, v))).get? k =
      if k ∈ keys then f k else none := by
  have hsub : ((keys.filterMap fun a => (f a).map fun v => (a, v)).map Prod.fst).Sublist keys := by
    clear hkeys
    induction keys with
    | nil => exact List.Sublist.slnil
    | cons a keys ih =>
      cases hf : f a with
      | none =>
        rw [List.filterMap_cons_none (by rw [hf]; rfl)]
        exact ih.cons a
      | some v =>
        rw [List.filterMap_cons_some (by rw [hf]; rfl), List.map_cons]
        exact ih.cons_cons a
  by_cases hread : k ∈ keys ∧ (f k).isSome
  · obtain ⟨hk, hv⟩ := hread
    obtain ⟨v, hv⟩ := Option.isSome_iff_exists.mp hv
    rw [if_pos hk, hv]
    exact get?_setAll_of_mem (e := (k, v)) (hkeys.sublist hsub)
      (List.mem_filterMap.mpr ⟨k, hk, by rw [hv]; rfl⟩)
  · rw [get?_setAll_of_notMem, get?_empty]
    · split_ifs with hk
      · cases hv : f k with
        | none => rfl
        | some v => exact absurd ⟨hk, by rw [hv]; rfl⟩ hread
      · rfl
    · intro hmem
      obtain ⟨e, he, rfl⟩ := List.mem_map.mp hmem
      obtain ⟨a, ha, hfa⟩ := List.mem_filterMap.mp he
      obtain ⟨v, hv, rfl⟩ := Option.map_eq_some_iff.mp hfa
      exact hread ⟨ha, by rw [hv]; rfl⟩

theorem sum_setAll_new [AddCommGroup M] (f : κ → ν → M) (hl : (l.map Prod.fst).Nodup)
    (hnew : ∀ k ∈ l.map Prod.fst, d.get? k = none) :
    (d.setAll l).sum f = d.sum f + (l.map fun e => f e.1 e.2).sum := by
  induction l generalizing d with
  | nil => simp [setAll]
  | cons e l ih =>
    rw [List.map_cons, List.nodup_cons] at hl
    have hnone : d.sumAt f e.1 = 0 := by
      rw [sumAt, hnew e.1 (by simp)]
      rfl
    have hrest : ∀ k ∈ l.map Prod.fst, (d.set e.1 e.2).get? k = none := by
      intro k hk
      have hne : k ≠ e.1 := by
        rintro rfl
        exact hl.1 hk
      rw [get?_set_of_ne _ _ hne]
      exact hnew k (by simp only [List.map_cons, List.mem_cons, hk, or_true])
    have hstep := ih (d := d.set e.1 e.2) hl.2 hrest
    rw [setAll] at hstep
    rw [setAll, List.foldl_cons, hstep, sum_set, hnone, sub_zero, List.map_cons, List.sum_cons,
      add_assoc]

theorem setList_of_notMem (v : ν) (h : k ∉ l.map Prod.fst) : setList k v l = l ++ [(k, v)] := by
  induction l with
  | nil => rfl
  | cons e l ih =>
    rw [List.map_cons, List.mem_cons, not_or] at h
    simp [setList, Ne.symm h.1, ih h.2]

theorem setList_of_mem (v : ν) (hl : (l.map Prod.fst).Nodup) (h : k ∈ l.map Prod.fst) :
    setList k v l = l.map fun e => if e.1 = k then (k, v) else e := by
  induction l with
  | nil => cases h
  | cons e l ih =>
    rw [List.map_cons, List.nodup_cons] at hl
    by_cases he : e.1 = k
    · subst he
      have hrest : (l.map fun f => if f.1 = e.1 then (e.1, v) else f) = l := by
        refine (List.map_congr_left fun f hf => ?_).trans (List.map_id l)
        rw [if_neg]
        · rfl
        · intro hfe
          exact hl.1 (hfe ▸ List.mem_map_of_mem hf)
      simp [setList, hrest]
    · have hmem : k ∈ l.map Prod.fst := by
        rcases List.mem_cons.mp h with hk | hk
        · exact absurd hk.symm he
        · exact hk
      simp [setList, he, ih hl.2 hmem]

theorem keys_set (d : Dict κ ν) (k : κ) (v : ν) :
    (d.set k v).keys = if k ∈ d.keys then d.keys else d.keys ++ [k] := by
  change (setList k v d.entries).map Prod.fst = _
  split_ifs with hk
  · rw [setList_of_mem v d.nodup hk, List.map_map]
    refine List.map_congr_left fun e _ => ?_
    rw [Function.comp_apply]
    split_ifs with he
    · exact he.symm
    · rfl
  · rw [setList_of_notMem v hk, List.map_append]
    rfl

/-- **A dictionary is rebuilt from its own entries.** -/
theorem ofList_entries (d : Dict κ ν) : ofList d.entries = d := by
  obtain ⟨l, hl⟩ := d
  apply ext
  induction l using List.reverseRecOn with
  | nil => rfl
  | append_singleton l e ih =>
    rw [List.map_append, List.nodup_append] at hl
    have hrec : (ofList l).entries = l := ih hl.1
    have he : e.1 ∉ l.map Prod.fst := fun h => hl.2.2 _ h _ (by simp) rfl
    simp only [ofList, List.foldl_append, List.foldl_cons, List.foldl_nil]
    change setList e.1 e.2 (ofList l).entries = l ++ [e]
    rw [hrec, setList_of_notMem _ he]

end

section
variable [LinearOrder κ]

def sorted (d : Dict κ ν) : Dict κ ν :=
  ⟨d.entries.mergeSort fun a b => a.1 ≤ b.1,
    ((List.mergeSort_perm d.entries _).map Prod.fst).nodup_iff.mpr d.nodup⟩

theorem get?_sorted (d : Dict κ ν) (k : κ) : d.sorted.get? k = d.get? k := by
  ext v
  rw [get?_eq_some, get?_eq_some, sorted, List.mem_mergeSort]

/-- **Two dictionaries are the same once sorted iff they read the same.** -/
theorem sorted_eq_iff {d e : Dict κ ν} : d.sorted = e.sorted ↔ ∀ k, d.get? k = e.get? k := by
  constructor
  · intro h k
    rw [← get?_sorted, h, get?_sorted]
  · intro h
    have hmem : ∀ x, x ∈ d.entries ↔ x ∈ e.entries := by
      intro x
      rw [← get?_eq_some, ← get?_eq_some, h]
    have hperm : d.entries.Perm e.entries :=
      (List.perm_ext_iff_of_nodup d.nodup.of_map e.nodup.of_map).mpr hmem
    have hle : ∀ f : Dict κ ν, f.sorted.entries.Pairwise fun a b => a.1 ≤ b.1 := by
      intro f
      have htrans : ∀ a b c : κ × ν, decide (a.1 ≤ b.1) = true → decide (b.1 ≤ c.1) = true →
          decide (a.1 ≤ c.1) = true := by
        intro a b c hab hbc
        exact decide_eq_true ((of_decide_eq_true hab).trans (of_decide_eq_true hbc))
      have htotal : ∀ a b : κ × ν, (decide (a.1 ≤ b.1) || decide (b.1 ≤ a.1)) = true := by
        intro a b
        simpa using le_total a.1 b.1
      simpa [sorted] using List.pairwise_mergeSort htrans htotal f.entries
    apply ext
    refine List.Perm.eq_of_pairwise ?_ (hle d) (hle e)
      ((List.mergeSort_perm _ _).trans (hperm.trans (List.mergeSort_perm _ _).symm))
    intro a b ha hb hab hba
    have hkey : a.1 = b.1 := le_antisymm hab hba
    have ha' := (d.sorted.get?_eq_some).mpr ha
    have hb' := (e.sorted.get?_eq_some).mpr hb
    rw [get?_sorted, hkey, h, ← get?_sorted, hb'] at ha'
    exact Prod.ext hkey (Option.some.inj ha').symm

@[simp] theorem sorted_sorted (d : Dict κ ν) : d.sorted.sorted = d.sorted :=
  sorted_eq_iff.mpr d.get?_sorted

end

end Dict
