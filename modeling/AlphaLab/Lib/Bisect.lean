/-
  Binary search, and the part of a list that comes before a boundary.

  * `bisect_eq`: where what is below the boundary comes first, the search finds how much of it
    there is;
  * `takeWhile_append_drop`: what another boundary takes of the rest.
-/
import Mathlib.Data.List.TakeWhile
import Mathlib.Tactic

namespace Fallible

variable {α : Type}

/-- Halve the entries from `low` to `high` until one position is left. -/
def bisectFrom (l : List α) (below : α → Bool) (low high : ℕ) : ℕ :=
  if low < high then
    let middle := (low + high) / 2
    if l[middle]?.any below then bisectFrom l below (middle + 1) high
    else bisectFrom l below low middle
  else low
termination_by high - low

def bisect (l : List α) (below : α → Bool) : ℕ := bisectFrom l below 0 l.length

def BelowFirst (below : α → Bool) (l : List α) : Prop := l.Pairwise fun a b => below b → below a

section
variable {l : List α} {below : α → Bool}

theorem BelowFirst.of_le {i j : ℕ} (h : BelowFirst below l) (hij : i ≤ j)
    (hj : l[j]?.any below) : l[i]?.any below := by
  obtain ⟨b, hb, hbelow⟩ := (Option.any_eq_true _ _).mp hj
  obtain ⟨hlt, rfl⟩ := List.getElem?_eq_some_iff.mp hb
  have hi : l[i]? = some l[i] := List.getElem?_eq_getElem (hij.trans_lt hlt)
  rcases hij.lt_or_eq with hij | rfl
  · rw [hi]
    exact List.pairwise_iff_getElem.mp h i j _ hlt hij hbelow
  · exact hj

theorem bisectFrom_spec (h : BelowFirst below l) {low high : ℕ} (hle : low ≤ high)
    (hlow : ∀ i < low, l[i]?.any below) (hhigh : ∀ i, high ≤ i → ¬ l[i]?.any below) :
    (∀ i < bisectFrom l below low high, l[i]?.any below) ∧
      ∀ i, bisectFrom l below low high ≤ i → ¬ l[i]?.any below := by
  induction hn : high - low using Nat.strong_induction_on generalizing low high with
  | h n ih =>
    rw [bisectFrom]
    split_ifs with hlt
    · have hmiddle : (low + high) / 2 < high := by omega
      dsimp only
      split_ifs with hbelow
      · refine ih _ (by omega) (by omega) (fun i hi => ?_) hhigh rfl
        exact h.of_le (by omega) hbelow
      · refine ih _ (by omega) (by omega) hlow (fun i hi hi' => ?_) rfl
        exact hbelow (h.of_le hi hi')
    · obtain rfl : low = high := by omega
      exact ⟨hlow, hhigh⟩

theorem lt_length_takeWhile (h : BelowFirst below l) (i : ℕ) :
    i < (l.takeWhile below).length ↔ l[i]?.any below := by
  induction l generalizing i with
  | nil => simp
  | cons a l ih =>
    rw [BelowFirst, List.pairwise_cons] at h
    by_cases ha : below a
    · rw [List.takeWhile_cons_of_pos ha]
      cases i with
      | zero => simpa using ha
      | succ i => simpa using ih h.2 i
    · rw [List.takeWhile_cons_of_neg ha]
      have hnone : ¬ (a :: l)[i]?.any below := by
        intro hany
        obtain ⟨b, hb, hbelow⟩ := (Option.any_eq_true _ _).mp hany
        rcases List.mem_cons.mp (List.mem_of_getElem? hb) with rfl | hmem
        · exact ha hbelow
        · exact ha (h.1 b hmem hbelow)
      simp [hnone]

/-- **The search finds how much is below the boundary.** -/
theorem bisect_eq (h : BelowFirst below l) : bisect l below = (l.takeWhile below).length := by
  obtain ⟨hleft, hright⟩ := bisectFrom_spec h (Nat.zero_le l.length) (by simp)
    (fun i hi => by simp [List.getElem?_eq_none hi])
  refine le_antisymm (not_lt.mp fun hlt => ?_) (not_lt.mp fun hlt => ?_)
  · exact lt_irrefl _ ((lt_length_takeWhile h _).mpr (hleft _ hlt))
  · exact hright _ le_rfl ((lt_length_takeWhile h _).mp hlt)

theorem BelowFirst.takeWhile_eq_filter (h : BelowFirst below l) :
    l.takeWhile below = l.filter below := by
  induction l with
  | nil => rfl
  | cons a l ih =>
    rw [BelowFirst, List.pairwise_cons] at h
    by_cases ha : below a
    · rw [List.takeWhile_cons_of_pos ha, List.filter_cons_of_pos ha, ih h.2]
    · rw [List.takeWhile_cons_of_neg ha, List.filter_cons_of_neg ha]
      exact (List.filter_eq_nil_iff.mpr fun b hb hbelow => ha (h.1 b hb hbelow)).symm

theorem takeWhile_congr_mem {p q : α → Bool} (h : ∀ a ∈ l, p a = q a) :
    l.takeWhile p = l.takeWhile q := by
  induction l with
  | nil => rfl
  | cons a l ih =>
    rw [List.takeWhile_cons, List.takeWhile_cons, h a List.mem_cons_self,
      ih fun b hb => h b (List.mem_cons_of_mem _ hb)]

theorem BelowFirst.of_mem_drop (h : BelowFirst below l) {a : α}
    (ha : a ∈ l.drop (l.takeWhile below).length) : ¬ below a := by
  induction l with
  | nil => cases ha
  | cons b l ih =>
    rw [BelowFirst, List.pairwise_cons] at h
    by_cases hb : below b
    · rw [List.takeWhile_cons_of_pos hb] at ha
      exact ih h.2 ha
    · rw [List.takeWhile_cons_of_neg hb] at ha
      rcases List.mem_cons.mp ha with rfl | ha
      · exact hb
      · exact fun hbelow => hb (h.1 a ha hbelow)

/-- **What another boundary takes of the rest**: with what was taken before, what either takes of
    the whole. -/
theorem BelowFirst.takeWhile_append_drop (h : BelowFirst below l) (other : α → Bool) :
    l.takeWhile below ++ (l.drop (l.takeWhile below).length).takeWhile other =
      l.takeWhile fun a => below a || other a := by
  induction l with
  | nil => rfl
  | cons a l ih =>
    by_cases ha : below a
    · rw [BelowFirst, List.pairwise_cons] at h
      rw [List.takeWhile_cons_of_pos ha, List.takeWhile_cons_of_pos (by simp [ha]), List.cons_append]
      exact congrArg (a :: ·) (ih h.2)
    · rw [List.takeWhile_cons_of_neg ha, List.nil_append, List.length_nil, List.drop_zero]
      refine takeWhile_congr_mem fun b hb => ?_
      have hrest : ¬ below b := by
        refine h.of_mem_drop ?_
        rwa [List.takeWhile_cons_of_neg ha, List.length_nil, List.drop_zero]
      simp [hrest]

theorem BelowFirst.or {other : α → Bool} (h : BelowFirst below l) (h' : BelowFirst other l) :
    BelowFirst (fun a => below a || other a) l := by
  refine (h.and h').imp fun {a b} hab hb => ?_
  rcases Bool.or_eq_true _ _ ▸ hb with hb | hb
  · simp [hab.1 hb]
  · simp [hab.2 hb]

theorem BelowFirst.any {β : Type} {below : β → α → Bool} {bounds : List β}
    (h : ∀ t ∈ bounds, BelowFirst (below t) l) :
    BelowFirst (fun a => bounds.any fun t => below t a) l := by
  induction bounds with
  | nil => exact List.pairwise_of_forall fun _ _ hb => by simp at hb
  | cons t bounds ih =>
    have ih := ih fun u hu => h u (List.mem_cons_of_mem _ hu)
    simpa only [List.any_cons] using (h t List.mem_cons_self).or ih

end

end Fallible
