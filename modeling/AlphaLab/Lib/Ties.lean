/-
  The ties of rounding half to even.

  * `PassesTie k x`: `x` is rounded above `k`, being above the tie between `k` and `k + 1`,
    or on it with `k` odd (`lt_roundHalfEven_iff`).
  * **Equal roundings** (`roundHalfEven_eq_add_iff`): two values are rounded the same number
    of units apart iff every tie has them on the same side.
-/
import AlphaLab.Lib.SignificantDigits

namespace Rounding

attribute [local instance] Numerals.two

variable {K : Type*} [Field K] [LinearOrder K] [IsStrictOrderedRing K] [FloorRing K]

/-- `x` is above the tie between `k` and `k + 1`, or on it with `k` odd. -/
def PassesTie (k : ℤ) (x : K) : Prop := (k : K) + 1 / 2 < x ∨ x = k + 1 / 2 ∧ ¬ Even k

/-- **The values rounded above `k`** are those that pass its tie. -/
theorem lt_roundHalfEven_iff (k : ℤ) (x : K) : k < roundHalfEven x ↔ PassesTie k x := by
  have hle := Int.floor_le x
  have hlt := Int.lt_floor_add_one x
  rcases lt_trichotomy k ⌊x⌋ with hk | rfl | hk
  · -- the whole of `x` is above the tie
    have hcast : (k : K) + 1 ≤ ⌊x⌋ := by exact_mod_cast hk
    refine iff_of_true ?_ (Or.inl (by linarith))
    rcases roundHalfEven_cases x with hr | hr <;> omega
  · simp only [roundHalfEven, PassesTie, Int.even_iff]
    split_ifs with hlow hhigh heven
    · refine iff_of_false (lt_irrefl _) ?_
      rintro (h | ⟨h, -⟩) <;> linarith
    · exact iff_of_true (lt_add_one _) (Or.inl (by linarith))
    · refine iff_of_false (lt_irrefl _) ?_
      rintro (h | ⟨-, h⟩)
      · linarith
      · exact h heven
    · exact iff_of_true (lt_add_one _) (Or.inr ⟨by linarith, heven⟩)
  · have hcast : (⌊x⌋ : K) + 1 ≤ k := by exact_mod_cast hk
    refine iff_of_false ?_ ?_
    · rcases roundHalfEven_cases x with hr | hr <;> omega
    · rintro (h | ⟨h, -⟩) <;> linarith

/-- **Two roundings are `c` units apart** iff every tie, moved by `c`, has both values on
    the same side. -/
theorem roundHalfEven_eq_add_iff (c : ℤ) (x y : K) :
    roundHalfEven x = roundHalfEven y + c ↔ ∀ k : ℤ, PassesTie (k + c) x ↔ PassesTie k y := by
  simp only [← lt_roundHalfEven_iff]
  constructor
  · intro h k
    rw [h, add_lt_add_iff_right]
  · intro h
    have hx := (h (roundHalfEven x - c - 1)).mp (by omega)
    have hy := (h (roundHalfEven y - 1)).mpr (by omega)
    omega

/-- The tie between `k` and `k + 1` is, with the sign changed, that between `-k - 1` and `-k`. -/
theorem passesTie_neg (k : ℤ) (x : K) : PassesTie k (-x) ↔ ¬ PassesTie (-k - 1) x := by
  have hcast : ((-k - 1 : ℤ) : K) + 1 / 2 = -(k + 1 / 2) := by push_cast; ring
  have heven : Even (-k - 1) ↔ ¬ Even k := by
    rw [Int.even_sub_one, even_neg]
  simp only [PassesTie, hcast, heven, not_not]
  rcases lt_trichotomy x (-((k : K) + 1 / 2)) with hx | hx | hx
  · refine iff_of_true (Or.inl (by linarith)) ?_
    rintro (h | ⟨h, -⟩) <;> linarith
  · subst hx
    simp
  · refine iff_of_false ?_ (not_not.mpr (Or.inl hx))
    rintro (h | ⟨h, -⟩) <;> linarith

theorem roundHalfEven_neg (x : K) : roundHalfEven (-x) = -roundHalfEven x := by
  have h : ∀ k : ℤ, k < roundHalfEven (-x) ↔ k < -roundHalfEven x := by
    intro k
    rw [lt_roundHalfEven_iff, passesTie_neg, ← lt_roundHalfEven_iff]
    omega
  have hle := (h (-roundHalfEven x)).not
  have hge := h (-roundHalfEven x - 1)
  omega

theorem roundTo_neg (u x : K) : roundTo u (-x) = -roundTo u x := by
  rw [roundTo, roundTo, neg_div, roundHalfEven_neg]
  push_cast
  ring

theorem roundSig_odd (b p : ℕ) (x : K) : roundSig b p (-x) = -roundSig b p x := by
  simp only [roundSig, lastDigit, abs_neg, neg_eq_zero]
  split_ifs
  · rw [neg_zero]
  · exact roundTo_neg _ _

theorem roundSig_monotone {b p : ℕ} (hb : 1 < b) (hp : 0 < p) {x y : K} (h : x ≤ y) :
    roundSig b p x ≤ roundSig b p y := by
  rcases le_or_gt 0 x with hx | hx
  · exact roundSig_mono hb hp hx h
  · rcases le_or_gt 0 y with hy | hy
    · refine (roundSig_neg hb hp hx).le.trans ?_
      rcases hy.eq_or_lt with rfl | hpos
      · rw [roundSig_zero]
      · exact (roundSig_pos hb hp hpos).le
    · have hneg := roundSig_mono hb hp (neg_nonneg.mpr hy.le) (neg_le_neg h)
      rw [roundSig_odd, roundSig_odd] at hneg
      exact neg_le_neg_iff.mp hneg

end Rounding
