/-
  Stable sorting of entries that were put together class by class.

  * `eq_of_filter_key`: lists in the order of their keys are one where they agree at every key;
  * `sortBy_eq_iff`: sorting the classes, one after another, gives back the order in which the
    entries came iff at every key they came class by class.
-/
import AlphaLab.Lib.SortBy

namespace Fallible

variable {α κ ρ : Type} [LinearOrder κ] [LinearOrder ρ] {key : α → κ} {rank : α → ρ} {l c : List α}

theorem filter_sortBy_key (key : α → κ) (l : List α) (k : κ) :
    (sortBy key l).filter (fun a => key a = k) = l.filter fun a => key a = k := by
  have hequal : (l.filter fun a => key a = k).Pairwise fun a b => key a ≤ key b := by
    refine List.pairwise_of_forall_mem_list ?_
    intro a ha b hb
    rw [of_decide_eq_true (List.mem_filter.mp ha).2, of_decide_eq_true (List.mem_filter.mp hb).2]
  have hsub := (List.sublist_insertionSort hequal List.filter_sublist).filter
    fun a => decide (key a = k)
  rw [List.filter_filter] at hsub
  simp only [Bool.and_self] at hsub
  exact (hsub.eq_of_length (((sortBy_perm key l).filter _).length_eq).symm).symm

theorem eq_of_filter_key (hl : l.Pairwise fun a b => key a ≤ key b)
    (hc : c.Pairwise fun a b => key a ≤ key b)
    (h : ∀ k, (l.filter fun a => key a = k) = c.filter fun a => key a = k) : l = c := by
  have hmem : ∀ {a}, a ∈ l ↔ a ∈ c := by
    intro a
    have ha := congrArg (a ∈ ·) (h (key a))
    simpa using ha
  induction l generalizing c with
  | nil =>
    cases c with
    | nil => rfl
    | cons b c => exact absurd (hmem.mpr List.mem_cons_self) List.not_mem_nil
  | cons a l ih =>
    cases c with
    | nil => exact absurd (hmem.mp List.mem_cons_self) List.not_mem_nil
    | cons b c =>
      have hle : ∀ {x y : α} {xs : List α}, ((x :: xs).Pairwise fun a b => key a ≤ key b) →
          y ∈ x :: xs → key x ≤ key y := by
        intro x y xs hsorted hy
        rcases List.mem_cons.mp hy with rfl | hy
        · exact le_rfl
        · exact (List.pairwise_cons.mp hsorted).1 y hy
      have hkey : key a = key b :=
        le_antisymm (hle hl (hmem.mpr List.mem_cons_self)) (hle hc (hmem.mp List.mem_cons_self))
      obtain rfl : a = b := by
        have hfirst := h (key b)
        rw [List.filter_cons_of_pos (by simpa using hkey), List.filter_cons_of_pos (by simp)]
          at hfirst
        exact (List.cons.inj hfirst).1
      have htail : ∀ k, (l.filter fun a => key a = k) = c.filter fun a => key a = k := by
        intro k
        have hk := h k
        by_cases hak : key a = k
        · rw [List.filter_cons_of_pos (by simpa using hak),
            List.filter_cons_of_pos (by simpa using hak)] at hk
          exact (List.cons.inj hk).2
        · rwa [List.filter_cons_of_neg (by simpa using hak),
            List.filter_cons_of_neg (by simpa using hak)] at hk
      refine congrArg (a :: ·) (ih hl.of_cons hc.of_cons htail ?_)
      intro x
      have hx := congrArg (x ∈ ·) (htail (key x))
      simpa using hx

/-- **Sorting what was put together class by class** gives the order in which it came iff it came
class by class at every key. -/
theorem sortBy_eq_iff (hl : l.Pairwise fun a b => rank a ≤ rank b)
    (hc : c.Pairwise fun a b => key a ≤ key b)
    (h : ∀ r, (l.filter fun a => rank a = r) = c.filter fun a => rank a = r) :
    sortBy key l = c ↔ c.Pairwise fun a b => key a = key b → rank a ≤ rank b := by
  constructor
  · rintro rfl
    rw [List.pairwise_iff_forall_sublist]
    intro a b hsub hkey
    have hsorted := hl.filter fun a => decide (key a = key b)
    rw [← filter_sortBy_key, List.pairwise_filter, List.pairwise_iff_forall_sublist] at hsorted
    exact hsorted hsub (decide_eq_true hkey) (decide_eq_true rfl)
  · intro hranked
    refine eq_of_filter_key (sortBy_sorted key l) hc ?_
    intro k
    rw [filter_sortBy_key]
    refine eq_of_filter_key (hl.filter _) ?_ ?_
    · rw [List.pairwise_filter]
      refine hranked.imp ?_
      intro a b hab ha hb
      exact hab ((of_decide_eq_true ha).trans (of_decide_eq_true hb).symm)
    · intro r
      rw [List.filter_comm, h r, List.filter_comm]

end Fallible
