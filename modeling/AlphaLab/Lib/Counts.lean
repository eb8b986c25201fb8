/-
  Counting the integers of a kind from a point.

  * `countBetween p d s` is how many integers after `d` and up to `s` are of the kind `p`;
  * `IsNth p d n s` says that `s` is the `n`-th of the kind strictly after `d`, `d` itself for
    none; `isNth_step` finds it one integer on;
  * `IsNth.add` goes on counting from it, `IsNth.mono` begins later;
  * `IsNth.reverse`: counted down from the `n`-th, the `n`-th is where the counting began, if
    that is of the kind.
-/
import Mathlib.Algebra.Order.Group.Int
import Mathlib.Order.Interval.Finset.Basic
import Mathlib.Data.Int.ConditionallyCompleteOrder
import Mathlib.Data.Int.Interval
import Mathlib.Tactic.Linarith

namespace Counts

variable (p : ℤ → Prop) [DecidablePred p]

/-- How many integers after `d` and up to `s` are of the kind. -/
noncomputable def countBetween (d s : ℤ) : ℕ := ((Finset.Ioc d s).filter p).card

/-- The `n`-th integer of the kind strictly after `d`; `d` itself for none. -/
structure IsNth (d : ℤ) (n : ℕ) (s : ℤ) : Prop where
  le : d ≤ s
  count : countBetween p d s = n
  last : s = d ∨ p s

variable {p} {d d' s s' t t' : ℤ} {m n : ℕ}

@[simp] theorem countBetween_self : countBetween p d d = 0 := by simp [countBetween]

/-- Those after `d` are its successor, if it is of the kind, and those after that. -/
theorem countBetween_step (h : d < s) :
    countBetween p d s = countBetween p (d + 1) s + if p (d + 1) then 1 else 0 := by
  have hstep : Finset.Ioc d s = insert (d + 1) (Finset.Ioc (d + 1) s) := by
    ext x
    simp only [Finset.mem_Ioc, Finset.mem_insert]
    omega
  rw [countBetween, hstep, Finset.filter_insert]
  split_ifs
  · rw [Finset.card_insert_of_notMem (by simp), countBetween]
  · rw [countBetween, add_zero]

theorem isNth_zero : IsNth p d 0 s ↔ s = d := by
  constructor
  · rintro ⟨hle, hcount, hlast⟩
    rcases hlast with h | hp
    · exact h
    -- an integer of the kind would be counted
    by_contra hne
    have hmem : s ∈ (Finset.Ioc d s).filter p := by
      simp only [Finset.mem_filter, Finset.mem_Ioc]
      exact ⟨⟨by omega, le_rfl⟩, hp⟩
    exact absurd hcount (Finset.card_pos.mpr ⟨s, hmem⟩).ne'
  · rintro rfl
    exact ⟨le_rfl, countBetween_self, Or.inl rfl⟩

/-- **One integer on**: it is one of the kind less to be found, if it is of the kind. -/
theorem isNth_step : IsNth p d (n + 1) s ↔ IsNth p (d + 1) (if p (d + 1) then n else n + 1) s := by
  constructor
  · rintro ⟨hle, hcount, hlast⟩
    have hlt : d < s := by
      refine lt_of_le_of_ne hle ?_
      rintro rfl
      simp at hcount
    have hp : p s := hlast.resolve_left hlt.ne'
    rw [countBetween_step hlt] at hcount
    refine ⟨hlt, ?_, Or.inr hp⟩
    split_ifs at hcount ⊢ <;> omega
  · rintro ⟨hle, hcount, hlast⟩
    have hlt : d < s := by omega
    refine ⟨hlt.le, ?_, Or.inr ?_⟩
    · rw [countBetween_step hlt]
      split_ifs at hcount ⊢ <;> omega
    · rcases hlast with rfl | hp
      · by_contra hnot
        rw [if_neg hnot, countBetween_self] at hcount
        omega
      · exact hp

theorem countBetween_add (hdt : d ≤ t) (hts : t ≤ s) :
    countBetween p d s = countBetween p d t + countBetween p t s := by
  rw [countBetween, ← Finset.Ioc_union_Ioc_eq_Ioc hdt hts, Finset.filter_union,
    Finset.card_union_of_disjoint]
  · rfl
  · exact (Finset.Ioc_disjoint_Ioc_of_le le_rfl).mono (Finset.filter_subset _ _)
      (Finset.filter_subset _ _)

/-- What is found short of the `n`-th has fewer before it. -/
theorem IsNth.count_lt (h : IsNth p d n t) (hds : d ≤ s) (hst : s < t) : countBetween p d s < n := by
  have hp : p t := h.last.resolve_left (by omega)
  have hpos : 0 < countBetween p s t := Finset.card_pos.mpr ⟨t, by simp [hst, hp]⟩
  have hadd := countBetween_add (p := p) hds hst.le
  have hcount := h.count
  omega

/-- **Counted from the `m`-th on**, the `m + n`-th is the `n`-th. -/
theorem IsNth.add (h : IsNth p d m t) : IsNth p d (m + n) s ↔ IsNth p t n s := by
  constructor
  · rintro ⟨hle, hcount, hlast⟩
    have hts : t ≤ s := by
      by_contra hst
      have := h.count_lt hle (not_le.mp hst)
      omega
    have hadd := countBetween_add (p := p) h.le hts
    refine ⟨hts, by have := h.count; omega, ?_⟩
    rcases hlast with rfl | hp
    · exact Or.inl (le_antisymm h.le hts)
    · exact Or.inr hp
  · rintro ⟨hle, hcount, hlast⟩
    refine ⟨h.le.trans hle, by rw [countBetween_add h.le hle, h.count, hcount], ?_⟩
    rcases hlast with rfl | hp
    · exact h.last
    · exact Or.inr hp

theorem IsNth.mono (h : IsNth p d n t) (h' : IsNth p d' n t') (hd : d ≤ d') : t ≤ t' := by
  by_contra hlt
  have hadd := countBetween_add (p := p) hd h'.le
  have := h.count_lt (hd.trans h'.le) (not_le.mp hlt)
  have := h'.count
  omega

theorem countBetween_neg :
    countBetween (fun x => p (-x)) (-s) (-d) = ((Finset.Ico d s).filter p).card := by
  refine Finset.card_bij (fun x _ => -x) ?_ (fun x _ y _ h => neg_injective h) ?_
  · intro x hx
    simp only [Finset.mem_filter, Finset.mem_Ioc, Finset.mem_Ico] at hx ⊢
    exact ⟨⟨by omega, by omega⟩, hx.2⟩
  · intro x hx
    simp only [Finset.mem_filter, Finset.mem_Ico] at hx
    refine ⟨-x, ?_, neg_neg x⟩
    simp only [Finset.mem_filter, Finset.mem_Ioc, neg_neg]
    exact ⟨⟨by omega, by omega⟩, hx.2⟩

/-- **Counted down from the `n`-th**, the `n`-th is where the counting began. -/
theorem IsNth.reverse (h : IsNth p d n s) (hd : p d) : IsNth (fun x => p (-x)) (-s) n (-d) := by
  refine ⟨neg_le_neg h.le, ?_, Or.inr (by simpa using hd)⟩
  rw [countBetween_neg, ← h.count, countBetween]
  rcases h.le.eq_or_lt with rfl | hlt
  · simp
  have hs : p s := h.last.resolve_left hlt.ne'
  rw [← Finset.Ioo_insert_left hlt, ← Finset.Ioo_insert_right hlt, Finset.filter_insert,
    Finset.filter_insert, if_pos hd, if_pos hs, Finset.card_insert_of_notMem (by simp),
    Finset.card_insert_of_notMem (by simp)]

end Counts
