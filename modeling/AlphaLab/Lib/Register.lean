/-
  Registers: dictionaries whose values are kept under a key of their own.

  A `Register key` is a `Dict` in which every value `v` is stored at `key v`,
  so that a value cannot be filed under another's key.  `put` writes a value
  where it belongs; `get?_put` is what is read back, `sum_put` how a sum over
  the values moves.
-/
import AlphaLab.Lib.Dict

structure Register {κ ν : Type} [DecidableEq κ] (key : ν → κ) where
  dict : Dict κ ν
  keyed : ∀ k v, dict.get? k = some v → key v = k

namespace Register

variable {κ ν M : Type} [DecidableEq κ] {key : ν → κ}

instance [DecidableEq ν] : DecidableEq (Register key) := fun r s =>
  decidable_of_iff (r.dict = s.dict) (by cases r; cases s; simp)

@[ext] theorem ext {r s : Register key} (h : r.dict = s.dict) : r = s := by
  cases r
  cases s
  simpa using h

def empty : Register key := ⟨Dict.empty, by simp⟩

/-- The value of key `k`, if there is one. -/
def get? (r : Register key) (k : κ) : Option ν := r.dict.get? k

/-- `r` with `v` at its key. -/
def put (r : Register key) (v : ν) : Register key where
  dict := r.dict.set (key v) v
  keyed := by
    intro k w h
    rw [Dict.get?_set] at h
    split_ifs at h with hk
    · rw [← Option.some.inj h, hk]
    · exact r.keyed k w h

def values (r : Register key) : List ν := r.dict.values

variable {r : Register key} {k : κ} {v : ν}

theorem key_of_get? (h : r.get? k = some v) : key v = k :=
  r.keyed k v h

@[simp] theorem get?_empty (k : κ) : (empty : Register key).get? k = none := rfl

theorem get?_put (r : Register key) (v : ν) (k : κ) :
    (r.put v).get? k = if k = key v then some v else r.get? k :=
  r.dict.get?_set (key v) k v

@[simp] theorem get?_put_self (r : Register key) (v : ν) : (r.put v).get? (key v) = some v := by
  simp [get?_put]

theorem get?_put_of_ne (r : Register key) (h : k ≠ key v) : (r.put v).get? k = r.get? k := by
  simp [get?_put, h]

/-- A value replaced by `w` takes the step to `w`; the others stay. -/
theorem get?_put_step {k k₁ : κ} {v v₁ w : ν} (P : ν → ν → Prop) (hv : r.get? k = some v)
    (hv₁ : r.get? k₁ = some v₁) (hw : key w = key v₁) (hstep : P v₁ w) (hstay : P v v) :
    ∃ v', (r.put w).get? k = some v' ∧ P v v' := by
  rw [get?_put, hw, key_of_get? hv₁]
  split_ifs with hk
  · subst hk
    rw [hv] at hv₁
    obtain rfl := Option.some.inj hv₁
    exact ⟨w, rfl, hstep⟩
  · exact ⟨v, hv, hstay⟩

theorem mem_values : v ∈ r.values ↔ r.get? (key v) = some v := by
  rw [get?, Dict.get?_eq_some, values, Dict.values, List.mem_map]
  constructor
  · rintro ⟨⟨k, w⟩, h, rfl⟩
    rwa [r.keyed k w (r.dict.get?_eq_some.mpr h)]
  · intro h
    exact ⟨_, h, rfl⟩

theorem nodup_map_values (r : Register key) : (r.values.map key).Nodup := by
  have hkeys : r.values.map key = r.dict.entries.map Prod.fst := by
    rw [values, Dict.values, List.map_map]
    refine List.map_congr_left fun e he => ?_
    exact r.keyed e.1 e.2 (r.dict.get?_eq_some.mpr he)
  rw [hkeys]
  exact r.dict.nodup

variable {w : ν}

theorem get?_put_cases (h : (r.put v).get? k = some w) :
    k = key v ∧ w = v ∨ k ≠ key v ∧ r.get? k = some w := by
  rw [get?_put] at h
  split_ifs at h with hk
  · exact Or.inl ⟨hk, (Option.some.inj h).symm⟩
  · exact Or.inr ⟨hk, h⟩

theorem values_put_new (h : r.get? (key v) = none) : (r.put v).values = r.values ++ [v] := by
  have hkey : key v ∉ r.dict.entries.map Prod.fst := (r.dict.get?_eq_none).mp h
  simp only [values, Dict.values, put, Dict.set, Dict.setList_of_notMem v hkey]
  simp

theorem values_put_old (h : r.get? (key v) = some w) :
    (r.put v).values = r.values.map fun u => if key u = key v then v else u := by
  have hkey : key v ∈ r.dict.entries.map Prod.fst :=
    List.mem_map.mpr ⟨_, (r.dict.get?_eq_some).mp h, rfl⟩
  simp only [values, Dict.values, put, Dict.set, Dict.setList_of_mem v r.dict.nodup hkey,
    List.map_map]
  refine List.map_congr_left fun e he => ?_
  have hekey : key e.2 = e.1 := r.keyed e.1 e.2 ((r.dict.get?_eq_some).mpr he)
  simp only [Function.comp_apply, hekey]
  split_ifs <;> rfl

theorem foldl_put_values (r : Register key) : r.values.foldl put empty = r := by
  have hfold : ∀ (l : List (κ × ν)) (s : Register key), (∀ e ∈ l, key e.2 = e.1) →
      ((l.map Prod.snd).foldl put s).dict = l.foldl (fun d e => d.set e.1 e.2) s.dict := by
    intro l
    induction l with
    | nil => intro s _; rfl
    | cons e l ih =>
      intro s hl
      rw [List.map_cons, List.foldl_cons, List.foldl_cons,
        ih (s.put e.2) fun f hf => hl f (by simp [hf])]
      simp [put, hl e (by simp)]
  have hkeyed : ∀ e ∈ r.dict.entries, key e.2 = e.1 := fun e he =>
    r.keyed e.1 e.2 ((r.dict.get?_eq_some).mpr he)
  exact ext ((hfold r.dict.entries empty hkeyed).trans r.dict.ofList_entries)

/-- The sum of `f` over the values. -/
def sum [AddCommMonoid M] (r : Register key) (f : ν → M) : M := r.dict.sum fun _ v => f v

@[simp] theorem sum_empty [AddCommMonoid M] (f : ν → M) : (empty : Register key).sum f = 0 := rfl

theorem sum_put_new [AddCommGroup M] (r : Register key) (f : ν → M) (h : r.get? (key v) = none) :
    (r.put v).sum f = r.sum f + f v := by
  have hat : r.dict.sumAt (fun _ w => f w) (key v) = 0 := by
    rw [Dict.sumAt, ← get?, h]
    rfl
  rw [sum, put, Dict.sum_set, hat, sub_zero]
  rfl

theorem sum_put [AddCommGroup M] (r : Register key) (f : ν → M) (h : r.get? (key v) = some w) :
    (r.put v).sum f = r.sum f - f w + f v := by
  have hat : r.dict.sumAt (fun _ w => f w) (key v) = f w := by
    rw [Dict.sumAt, ← get?, h]
    rfl
  rw [sum, put, Dict.sum_set, hat]
  rfl

theorem sum_congr [AddCommMonoid M] (r : Register key) {f g : ν → M}
    (h : ∀ k v, r.get? k = some v → f v = g v) : r.sum f = r.sum g :=
  Dict.sum_congr r.dict h

theorem sum_add [AddCommMonoid M] (r : Register key) (f g : ν → M) :
    (r.sum fun v => f v + g v) = r.sum f + r.sum g := by
  simp only [sum, Dict.sum]
  exact List.sum_map_add

variable {f : ν → M}

theorem sum_nonneg [AddCommMonoid M] [PartialOrder M] [IsOrderedAddMonoid M] (r : Register key)
    (h : ∀ k v, r.get? k = some v → 0 ≤ f v) : 0 ≤ r.sum f := by
  refine List.sum_nonneg ?_
  intro x hx
  obtain ⟨e, he, rfl⟩ := List.mem_map.mp hx
  exact h e.1 e.2 ((r.dict.get?_eq_some).mpr he)

theorem le_sum [AddCommMonoid M] [PartialOrder M] [IsOrderedAddMonoid M] (r : Register key)
    (hv : r.get? k = some v) (h : ∀ k v, r.get? k = some v → 0 ≤ f v) : f v ≤ r.sum f := by
  refine List.single_le_sum ?_ _ (List.mem_map.mpr ⟨(k, v), (r.dict.get?_eq_some).mp hv, rfl⟩)
  intro x hx
  obtain ⟨e, he, rfl⟩ := List.mem_map.mp hx
  exact h e.1 e.2 ((r.dict.get?_eq_some).mpr he)

end Register
