/-
  How far rounding to significant digits moves a value.

  * Rounding is monotone (`roundHalfEven_mono`, `roundTo_mono`, `roundSig_mono`) and moves a
    value by half a unit at most (`abs_roundTo_sub_le`, `abs_roundSig_sub_le`).
  * `roundSig_of_onGrid`: a value of few enough digits is left alone.
-/
import AlphaLab.Lib.Rounding

namespace Rounding

variable {K : Type*} [Field K] [LinearOrder K] [IsStrictOrderedRing K] [FloorRing K]

theorem roundHalfEven_mono {x y : K} (h : x ≤ y) : roundHalfEven x ≤ roundHalfEven y := by
  rcases (Int.floor_le_floor h).lt_or_eq with hlt | heq
  · calc roundHalfEven x ≤ ⌊x⌋ + 1 := by rcases roundHalfEven_cases x with hr | hr <;> omega
      _ ≤ ⌊y⌋ := hlt
      _ ≤ roundHalfEven y := le_roundHalfEven (Int.floor_le y)
  · simp only [roundHalfEven, ← heq]
    split_ifs <;> first | omega | (exfalso; linarith)

theorem roundTo_mono {u x y : K} (hu : 0 < u) (h : x ≤ y) : roundTo u x ≤ roundTo u y := by
  have hr : roundHalfEven (x / u) ≤ roundHalfEven (y / u) :=
    roundHalfEven_mono (div_le_div_of_nonneg_right h hu.le)
  exact mul_le_mul_of_nonneg_right (by exact_mod_cast hr) hu.le

theorem le_roundTo_of_onGrid {u x y : K} (hu : 0 < u) (hy : OnGrid u y) (h : y ≤ x) :
    y ≤ roundTo u x := by
  rw [← roundTo_of_onGrid hu.ne' hy]
  exact roundTo_mono hu h

theorem abs_roundHalfEven_sub_le (x : K) : |(roundHalfEven x : K) - x| ≤ 1 / 2 := by
  have hle := Int.floor_le x
  have hlt := Int.lt_floor_add_one x
  simp only [roundHalfEven]
  split_ifs with hlow hhigh <;> rw [abs_le] <;> push_cast <;> constructor <;> linarith

theorem abs_roundTo_sub_le {u : K} (hu : 0 < u) (x : K) : |roundTo u x - x| ≤ u / 2 := by
  have hx : roundTo u x - x = ((roundHalfEven (x / u) : K) - x / u) * u := by
    rw [roundTo, sub_mul, div_mul_cancel₀ _ hu.ne']
  rw [hx, abs_mul, abs_of_pos hu]
  have hhalf := mul_le_mul_of_nonneg_right (abs_roundHalfEven_sub_le (x / u)) hu.le
  linarith

section
variable {b p : ℕ}

omit [FloorRing K] in
private theorem base_pos (hb : 1 < b) : (0 : K) < b := by exact_mod_cast Nat.zero_lt_of_lt hb

theorem lastDigit_le_mul (hb : 1 < b) {x : K} (hx : x ≠ 0) :
    lastDigit b p x ≤ |x| * (b : K) ^ (1 - p : ℤ) := by
  have hsplit : lastDigit b p x = (b : K) ^ Int.log b |x| * (b : K) ^ (1 - p : ℤ) := by
    rw [lastDigit, ← zpow_add₀ (base_pos hb).ne']
    congr 1
    ring
  rw [hsplit]
  exact mul_le_mul_of_nonneg_right (Int.zpow_log_le_self hb (abs_pos.mpr hx))
    (zpow_nonneg (base_pos hb).le _)

/-- **The relative error of a rounding to significant digits.** -/
theorem abs_roundSig_sub_le (hb : 1 < b) (x : K) :
    |roundSig b p x - x| ≤ |x| * ((b : K) ^ (1 - p : ℤ) / 2) := by
  rw [roundSig]
  split_ifs with hx
  · simp [hx]
  · calc |roundTo (lastDigit b p x) x - x| ≤ lastDigit b p x / 2 :=
          abs_roundTo_sub_le (lastDigit_pos hb x) x
      _ ≤ |x| * ((b : K) ^ (1 - p : ℤ) / 2) := by
          have hunit := lastDigit_le_mul (p := p) hb hx
          linarith

/-- **A value of at most `p` digits is left alone.** -/
theorem roundSig_of_onGrid (hb : 1 < b) {m : ℤ} {x : K} (hx : OnGrid ((b : K) ^ m) x)
    (hsmall : |x| < (b : K) ^ (m + p)) : roundSig b p x = x := by
  rw [roundSig]
  split_ifs with hzero
  · exact hzero.symm
  · have hlog : Int.log b |x| < m + p :=
      (Int.lt_zpow_iff_log_lt hb (abs_pos.mpr hzero)).mp hsmall
    have hfine : OnGrid (lastDigit b p x) x :=
      (onGrid_zpow (base_pos hb).ne' (by omega)).trans hx
    exact roundTo_of_onGrid (lastDigit_pos hb x).ne' hfine

theorem roundSig_mono (hb : 1 < b) (hp : 0 < p) {x y : K} (hx : 0 ≤ x) (h : x ≤ y) :
    roundSig b p x ≤ roundSig b p y := by
  rcases hx.eq_or_lt with rfl | hpos
  · rw [roundSig_zero]
    rcases h.eq_or_lt with rfl | hy
    · rw [roundSig_zero]
    · exact (roundSig_pos hb hp hy).le
  have hypos := hpos.trans_le h
  have hlog : Int.log b x ≤ Int.log b y := Int.log_mono_right hpos h
  rw [roundSig, roundSig, if_neg hpos.ne', if_neg hypos.ne']
  rcases hlog.eq_or_lt with heq | hlt
  · have hunit : lastDigit b p x = lastDigit b p y := by
      rw [lastDigit, lastDigit, abs_of_pos hpos, abs_of_pos hypos, heq]
    rw [hunit]
    exact roundTo_mono (lastDigit_pos hb y) h
  · -- a power of the base lies between the two, and both roundings respect it
    have hgrid : ∀ {z : K} {n : ℤ}, Int.log b |z| + 1 - p ≤ n →
        OnGrid (lastDigit b p z) ((b : K) ^ n) := fun hn => onGrid_zpow (base_pos hb).ne' hn
    calc roundTo (lastDigit b p x) x ≤ (b : K) ^ (Int.log b x + 1) := by
          refine roundTo_le_of_onGrid (lastDigit_pos hb x) (hgrid ?_)
            (Int.lt_zpow_succ_log_self hb x).le
          rw [abs_of_pos hpos]
          omega
      _ ≤ (b : K) ^ Int.log b y := zpow_le_zpow_right₀ (by exact_mod_cast hb.le) (by omega)
      _ ≤ roundTo (lastDigit b p y) y := by
          refine le_roundTo_of_onGrid (lastDigit_pos hb y) (hgrid ?_)
            (Int.zpow_log_le_self hb hypos)
          rw [abs_of_pos hypos]
          omega

theorem roundSig_roundSig (hb : 1 < b) (hp : 0 < p) {x : K} (hx : 0 ≤ x) :
    roundSig b p (roundSig b p x) = roundSig b p x := by
  rcases hx.eq_or_lt with rfl | hpos
  · rw [roundSig_zero, roundSig_zero]
  have hround : roundSig b p x = roundTo ((b : K) ^ (Int.log b x + 1 - p)) x := by
    rw [roundSig, if_neg hpos.ne', lastDigit, abs_of_pos hpos]
  have hgrid : OnGrid ((b : K) ^ (Int.log b x + 1 - p)) (roundSig b p x) := by
    rw [hround]
    exact onGrid_roundTo _ _
  have htop : roundSig b p x ≤ (b : K) ^ (Int.log b x + 1) := by
    rw [hround]
    exact roundTo_le_of_onGrid (zpow_pos (base_pos hb) _)
      (onGrid_zpow (base_pos hb).ne' (by omega)) (Int.lt_zpow_succ_log_self hb x).le
  have habs : |roundSig b p x| = roundSig b p x := abs_of_pos (roundSig_pos hb hp hpos)
  rcases htop.lt_or_eq with hlt | heq
  · refine roundSig_of_onGrid hb hgrid ?_
    rw [habs]
    convert hlt using 2
    ring
  · -- rounded up to the next power of the base, which is one digit
    rw [heq]
    refine roundSig_of_onGrid (m := Int.log b x + 1) hb ⟨1, by simp⟩ ?_
    rw [abs_of_pos (zpow_pos (base_pos hb) _)]
    exact zpow_lt_zpow_right₀ (by exact_mod_cast hb) (by omega)

theorem OnGrid.le_of_lt_add {u x y : K} (hu : 0 < u) (hx : OnGrid u x) (hy : OnGrid u y)
    (h : x < y + u) : x ≤ y := by
  obtain ⟨k, rfl⟩ := hx
  obtain ⟨l, rfl⟩ := hy
  have hkl : (k : K) < l + 1 := by
    rw [← mul_lt_mul_iff_left₀ hu]
    linarith
  have hle : k ≤ l := by
    have : k < l + 1 := by exact_mod_cast hkl
    omega
  exact mul_le_mul_of_nonneg_right (by exact_mod_cast hle) hu.le

omit [LinearOrder K] [IsStrictOrderedRing K] [FloorRing K] in
theorem OnGrid.int_mul {u x : K} (hx : OnGrid u x) (m : ℤ) : OnGrid u (m * x) := by
  obtain ⟨k, rfl⟩ := hx
  exact ⟨m * k, by push_cast; ring⟩

variable {u a c : K}

private theorem quotient_error (hb : 1 < b) (hc : 0 < c) (ha : 0 ≤ a)
    (hsmall : a * ((b : K) ^ (1 - p : ℤ) / 2) < u) : |roundSig b p (a / c) * c - a| < u := by
  have herror := abs_roundSig_sub_le (p := p) hb (a / c)
  rw [abs_of_nonneg (div_nonneg ha hc.le)] at herror
  have hscaled : roundSig b p (a / c) * c - a = (roundSig b p (a / c) - a / c) * c := by
    rw [sub_mul, div_mul_cancel₀ _ hc.ne']
  rw [hscaled, abs_mul, abs_of_pos hc]
  calc |roundSig b p (a / c) - a / c| * c
      ≤ a / c * ((b : K) ^ (1 - p : ℤ) / 2) * c := mul_le_mul_of_nonneg_right herror hc.le
    _ = a * ((b : K) ^ (1 - p : ℤ) / 2) := by
        rw [mul_right_comm, div_mul_cancel₀ _ hc.ne']
    _ < u := hsmall

theorem mul_le_of_le_roundSig_div (hb : 1 < b) (hu : 0 < u) (hc : 0 < c) (ha : 0 ≤ a)
    (hca : OnGrid u c) (haa : OnGrid u a) (hsmall : a * ((b : K) ^ (1 - p : ℤ) / 2) < u) {m : ℤ}
    (h : (m : K) ≤ roundSig b p (a / c)) : m * c ≤ a := by
  have herror := (abs_lt.mp (quotient_error hb hc ha hsmall)).2
  have hm := mul_le_mul_of_nonneg_right h hc.le
  exact (hca.int_mul m).le_of_lt_add hu haa (by linarith)

theorem le_mul_of_roundSig_div_le (hb : 1 < b) (hu : 0 < u) (hc : 0 < c) (ha : 0 ≤ a)
    (hca : OnGrid u c) (haa : OnGrid u a) (hsmall : a * ((b : K) ^ (1 - p : ℤ) / 2) < u) {m : ℤ}
    (h : roundSig b p (a / c) ≤ m) : a ≤ m * c := by
  have herror := (abs_lt.mp (quotient_error hb hc ha hsmall)).1
  have hm := mul_le_mul_of_nonneg_right h hc.le
  exact haa.le_of_lt_add hu (hca.int_mul m) (by linarith)

end

end Rounding
