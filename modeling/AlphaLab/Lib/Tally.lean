/-
  Running totals by key: a dictionary that keeps, for every key, what is summed under it,
  and no entry for a key under which nothing is counted.

  * `Counted size` are the amounts with a count that is not negative, and nothing where
    nothing is counted; they are closed under sums;
  * `Keeps size T R`: the table `T` keeps the totals `R`; `Keeps.moved` and
    `Keeps.gone` are the two ways of changing one key, `Keeps.ext` says that two tables
    of the same totals read alike, and `Keeps.mem_keys_sum` which keys a table of sums has.
-/
import AlphaLab.Lib.Dict

namespace Tally

variable {κ M : Type*} [DecidableEq κ] [AddCommGroup M]

/-- The amounts whose count is not negative and which are nothing when it is zero. -/
def Counted (size : M →+ ℤ) : AddSubmonoid M where
  carrier := {x | 0 ≤ size x ∧ (size x = 0 → x = 0)}
  zero_mem' := by simp
  add_mem' := by
    rintro x y ⟨hx, hx'⟩ ⟨hy, hy'⟩
    change 0 ≤ size (x + y) ∧ (size (x + y) = 0 → x + y = 0)
    rw [map_add]
    refine ⟨add_nonneg hx hy, fun h => ?_⟩
    rw [hx' (by omega), hy' (by omega), add_zero]

variable {size : M →+ ℤ}

theorem size_sum_ne_zero {l : List M} (hl : ∀ x ∈ l, x ∈ Counted size) :
    size l.sum ≠ 0 ↔ ∃ x ∈ l, size x ≠ 0 := by
  induction l with
  | nil => simp
  | cons x l ih =>
    have hx := (hl x List.mem_cons_self).1
    have hrest := ((Counted size).list_sum_mem fun y hy => hl y (List.mem_cons_of_mem x hy)).1
    rw [List.sum_cons, map_add, List.exists_mem_cons_iff, ← ih fun y hy =>
      hl y (List.mem_cons_of_mem x hy)]
    omega

/-! ## Tables -/

/-- **The table `T` keeps the totals `R`**: of every key, unless nothing is counted. -/
def Keeps (size : M →+ ℤ) (T : Dict κ M) (R : κ → M) : Prop :=
  ∀ k, T.get? k = if size (R k) = 0 then none else some (R k)

variable {T T' : Dict κ M} {R R' : κ → M} {K : κ}

theorem keeps_empty : Keeps size (Dict.empty : Dict κ M) 0 := by
  intro k
  simp

namespace Keeps

theorem ext (h : Keeps size T R) (h' : Keeps size T' R) (k : κ) : T.get? k = T'.get? k :=
  (h k).trans (h' k).symm

theorem getD (h : Keeps size T R) (hR : R K ∈ Counted size) : (T.get? K).getD 0 = R K := by
  rw [h]
  split_ifs with hzero
  · exact (hR.2 hzero).symm
  · rfl

theorem eq_of_some (h : Keeps size T R) {v : M} (hget : T.get? K = some v) : v = R K := by
  rw [h] at hget
  split_ifs at hget
  exact (Option.some.inj hget).symm

theorem mem_keys (h : Keeps size T R) : K ∈ T.keys ↔ size (R K) ≠ 0 := by
  rw [T.mem_keys_iff, h]
  split_ifs with hzero <;> simp [hzero]

theorem moved (h : Keeps size T R) {v : M} (hv : size v ≠ 0) (hK : R' K = v)
    (hothers : ∀ k, k ≠ K → R' k = R k) : Keeps size (T.set K v) R' := by
  intro k
  rw [Dict.get?_set]
  split_ifs with hk hsize hsize
  · subst hk
    exact absurd (hK ▸ hsize) hv
  · rw [hk, hK]
  · rw [h, ← hothers k hk, if_pos hsize]
  · rw [h, ← hothers k hk, if_neg hsize]

theorem gone (h : Keeps size T R) (hK : size (R' K) = 0)
    (hothers : ∀ k, k ≠ K → R' k = R k) : Keeps size (T.delete K) R' := by
  intro k
  rw [Dict.get?_delete]
  split_ifs with hk hsize hsize
  · rfl
  · subst hk
    exact absurd hK hsize
  · rw [h, ← hothers k hk, if_pos hsize]
  · rw [h, ← hothers k hk, if_neg hsize]

theorem mem_keys_sum {ι ν : Type*} {d : Dict ι ν} {f : κ → ι → ν → M}
    (h : Keeps size T fun k => d.sum (f k)) (hf : ∀ k a v, f k a v ∈ Counted size) :
    K ∈ T.keys ↔ ∃ a v, (a, v) ∈ d.entries ∧ size (f K a v) ≠ 0 := by
  rw [h.mem_keys, Dict.sum, size_sum_ne_zero]
  · simp
  · intro x hx
    obtain ⟨e, -, rfl⟩ := List.mem_map.mp hx
    exact hf K e.1 e.2

end Keeps

end Tally
