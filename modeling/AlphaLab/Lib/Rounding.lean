/-
  Rounding half to even, to a grid and to a number of significant digits.

  * `roundHalfEven x` is the integer nearest to `x`, the even one on a tie;
  * `roundTo u x` is the multiple of the unit `u` nearest to `x`, and
    `OnGrid u x` says that `x` is such a multiple;
  * `floorTo u x` is the greatest such multiple that is no more than `x`;
  * `roundSig b p x` keeps `p` significant digits of `x` in base `b`.

  The grid is a subgroup (`OnGrid.add`, `OnGrid.sub`, …), rounding lands on it
  (`onGrid_roundTo`) and leaves it alone (`roundTo_of_onGrid`); rounding to
  significant digits keeps the sign (`roundSig_pos`, `roundSig_neg`).
-/
import AlphaLab.Lib.Numerals
import Mathlib.Data.Int.Log
import Mathlib.Data.Rat.Floor
import Mathlib.Algebra.Order.Round
import Mathlib.Tactic

namespace Rounding

attribute [local instance] Numerals.two

variable {K : Type*} [Field K] [LinearOrder K] [IsStrictOrderedRing K] [FloorRing K]

/-! ## To the nearest integer -/

/-- The integer nearest to `x`; of the two nearest to a tie, the even one. -/
def roundHalfEven (x : K) : ℤ :=
  let f := ⌊x⌋
  if x - f < 1 / 2 then f
  else if 1 / 2 < x - f then f + 1
  else if f % 2 = 0 then f else f + 1

omit [IsStrictOrderedRing K] in
/-- A rounded value is one of the two integers around `x`. -/
theorem roundHalfEven_cases (x : K) : roundHalfEven x = ⌊x⌋ ∨ roundHalfEven x = ⌊x⌋ + 1 := by
  simp only [roundHalfEven]
  split_ifs <;> simp

@[simp] theorem roundHalfEven_intCast (k : ℤ) : roundHalfEven (k : K) = k := by
  simp [roundHalfEven]

@[simp] theorem roundHalfEven_zero : roundHalfEven (0 : K) = 0 := by
  simpa using roundHalfEven_intCast (K := K) 0

variable {x : K}

omit [IsStrictOrderedRing K] in
theorem le_roundHalfEven {k : ℤ} (h : (k : K) ≤ x) : k ≤ roundHalfEven x := by
  have hf : k ≤ ⌊x⌋ := Int.le_floor.mpr h
  rcases roundHalfEven_cases x with hr | hr <;> omega

theorem roundHalfEven_le {k : ℤ} (h : x ≤ (k : K)) : roundHalfEven x ≤ k := by
  rcases h.lt_or_eq with hlt | rfl
  · have hf : ⌊x⌋ < k := Int.floor_lt.mpr hlt
    rcases roundHalfEven_cases x with hr | hr <;> omega
  · simp

/-! ## To a grid -/

/-- `x` is a whole number of units `u`. -/
def OnGrid (u x : K) : Prop := ∃ k : ℤ, x = k * u

/-- The whole number of units `u` nearest to `x`, ties to even. -/
def roundTo (u x : K) : K := roundHalfEven (x / u) * u

variable {u : K}

theorem onGrid_iff (hu : u ≠ 0) (x : K) : OnGrid u x ↔ (⌊x / u⌋ : K) * u = x := by
  constructor
  · rintro ⟨k, rfl⟩
    rw [mul_div_cancel_right₀ _ hu, Int.floor_intCast]
  · intro h
    exact ⟨⌊x / u⌋, h.symm⟩

instance [DecidableEq K] (u x : K) : Decidable (OnGrid u x) :=
  if hu : u = 0 then
    decidable_of_iff (x = 0) (by simp [OnGrid, hu])
  else
    decidable_of_iff ((⌊x / u⌋ : K) * u = x) (onGrid_iff hu x).symm

omit [LinearOrder K] [IsStrictOrderedRing K] [FloorRing K] in
@[simp] theorem onGrid_zero (u : K) : OnGrid u 0 := ⟨0, by simp⟩

variable {y : K}

namespace OnGrid

omit [LinearOrder K] [IsStrictOrderedRing K] [FloorRing K]

theorem trans {u v x : K} : OnGrid u v → OnGrid v x → OnGrid u x := by
  rintro ⟨k, rfl⟩ ⟨l, rfl⟩
  exact ⟨l * k, by push_cast; ring⟩

theorem add : OnGrid u x → OnGrid u y → OnGrid u (x + y) := by
  rintro ⟨k, rfl⟩ ⟨l, rfl⟩
  exact ⟨k + l, by push_cast; ring⟩

theorem neg : OnGrid u x → OnGrid u (-x) := by
  rintro ⟨k, rfl⟩
  exact ⟨-k, by push_cast; ring⟩

theorem sub (hx : OnGrid u x) (hy : OnGrid u y) : OnGrid u (x - y) := by
  simpa [sub_eq_add_neg] using hx.add hy.neg

theorem sum {l : List K} (h : ∀ x ∈ l, OnGrid u x) : OnGrid u l.sum := by
  induction l with
  | nil => exact onGrid_zero u
  | cons x l ih =>
    rw [List.sum_cons]
    exact (h x (by simp)).add (ih fun y hy => h y (by simp [hy]))

end OnGrid

omit [IsStrictOrderedRing K] in
theorem onGrid_roundTo (u x : K) : OnGrid u (roundTo u x) := ⟨roundHalfEven (x / u), rfl⟩

theorem roundTo_of_onGrid (hu : u ≠ 0) : OnGrid u x → roundTo u x = x := by
  rintro ⟨k, rfl⟩
  rw [roundTo, mul_div_cancel_right₀ _ hu, roundHalfEven_intCast]

@[simp] theorem roundTo_zero (u : K) : roundTo u 0 = 0 := by simp [roundTo]

theorem roundTo_le_of_onGrid (hu : 0 < u) (hy : OnGrid u y) (h : x ≤ y) : roundTo u x ≤ y := by
  obtain ⟨k, rfl⟩ := hy
  have hk : roundHalfEven (x / u) ≤ k := roundHalfEven_le ((div_le_iff₀ hu).mpr h)
  exact mul_le_mul_of_nonneg_right (by exact_mod_cast hk) hu.le

/-! ## Down to a grid -/

/-- The greatest multiple of the unit `u` that is no more than `x`. -/
def floorTo (u x : K) : K := ⌊x / u⌋ * u

theorem floorTo_le (hu : 0 < u) (x : K) : floorTo u x ≤ x := by
  rw [floorTo, ← le_div_iff₀ hu]
  exact Int.floor_le _

theorem lt_floorTo_add (hu : 0 < u) (x : K) : x < floorTo u x + u := by
  have hlt : x / u < ⌊x / u⌋ + 1 := Int.lt_floor_add_one _
  rw [div_lt_iff₀ hu] at hlt
  rw [floorTo]
  linarith

theorem floorTo_nonneg (hu : 0 < u) (hx : 0 ≤ x) : 0 ≤ floorTo u x := by
  refine mul_nonneg ?_ hu.le
  exact_mod_cast Int.floor_nonneg.mpr (div_nonneg hx hu.le)

theorem floorTo_eq_zero (hx : 0 ≤ x) (hxu : x < u) : floorTo u x = 0 := by
  have hu : 0 < u := hx.trans_lt hxu
  have hfloor : ⌊x / u⌋ = 0 :=
    Int.floor_eq_zero_iff.mpr ⟨div_nonneg hx hu.le, (div_lt_one hu).mpr hxu⟩
  rw [floorTo, hfloor, Int.cast_zero, zero_mul]

theorem floorTo_floorTo {u v : K} (hu : 0 < u) (hv : 0 < v) (h : OnGrid u v) (x : K) :
    floorTo v (floorTo u x) = floorTo v x := by
  obtain ⟨k, rfl⟩ := h
  have hk : (0 : K) < k := (pos_iff_pos_of_mul_pos hv).mpr hu
  have hfloor : ⌊floorTo u x / (k * u)⌋ = ⌊x / (k * u)⌋ := by
    refine Int.floor_eq_iff.mpr ⟨?_, ?_⟩
    · rw [le_div_iff₀ hv, floorTo, ← mul_assoc]
      have hle : (⌊x / (k * u)⌋ * k : ℤ) ≤ ⌊x / u⌋ := by
        rw [Int.le_floor]
        push_cast
        rw [le_div_iff₀ hu, mul_assoc, ← le_div_iff₀ hv]
        exact Int.floor_le _
      gcongr
      exact_mod_cast hle
    · refine lt_of_le_of_lt ?_ (Int.lt_floor_add_one (x / (k * u)))
      gcongr
      exact floorTo_le hu x
  rw [floorTo, hfloor, floorTo]

/-! ## To a number of significant digits -/

/-- The unit of the last of `p` significant base-`b` digits of `x`. -/
def lastDigit (b p : ℕ) (x : K) : K := (b : K) ^ (Int.log b |x| + 1 - p)

/-- `x` rounded to `p` significant base-`b` digits. -/
def roundSig (b p : ℕ) (x : K) : K := if x = 0 then 0 else roundTo (lastDigit b p x) x

section
variable {b p : ℕ}

omit [IsStrictOrderedRing K] in
@[simp] theorem roundSig_zero : roundSig b p (0 : K) = 0 := by simp [roundSig]

theorem lastDigit_pos (hb : 1 < b) (x : K) : 0 < lastDigit b p x :=
  zpow_pos (by exact_mod_cast Nat.zero_lt_of_lt hb) _

theorem lastDigit_le_abs (hb : 1 < b) (hp : 0 < p) (hx : x ≠ 0) : lastDigit b p x ≤ |x| := by
  refine le_trans ?_ (Int.zpow_log_le_self hb (abs_pos.mpr hx))
  exact zpow_le_zpow_right₀ (by exact_mod_cast hb.le) (by omega)

omit [LinearOrder K] [IsStrictOrderedRing K] [FloorRing K] in
theorem onGrid_zpow (hb : (b : K) ≠ 0) {m n : ℤ} (h : m ≤ n) :
    OnGrid ((b : K) ^ m) ((b : K) ^ n) := by
  obtain ⟨k, rfl⟩ := Int.le.dest h
  refine ⟨(b : ℤ) ^ k, ?_⟩
  rw [zpow_add₀ hb, zpow_natCast, mul_comm]
  push_cast
  rfl

/-- **Significant digits keep the grid of a power of the base**: digits that go
    are above the grid's unit, or zero. -/
theorem onGrid_roundSig (hb : 1 < b) {m : ℤ} (hx : OnGrid ((b : K) ^ m) x) :
    OnGrid ((b : K) ^ m) (roundSig b p x) := by
  have hb' : (b : K) ≠ 0 := by
    have h : b ≠ 0 := by omega
    exact_mod_cast h
  rw [roundSig]
  split_ifs with hzero
  · exact onGrid_zero _
  · rcases le_total m (Int.log b |x| + 1 - p) with h | h
    · exact (onGrid_zpow hb' h).trans (onGrid_roundTo _ _)
    · have hfine : OnGrid (lastDigit b p x) x := (onGrid_zpow hb' h).trans hx
      rwa [roundTo_of_onGrid (lastDigit_pos hb x).ne' hfine]

theorem roundSig_pos (hb : 1 < b) (hp : 0 < p) (hx : 0 < x) : 0 < roundSig b p x := by
  have hu := lastDigit_pos (p := p) hb x
  have hle := lastDigit_le_abs hb hp hx.ne'
  rw [abs_of_pos hx] at hle
  rw [roundSig, if_neg hx.ne', roundTo]
  have h : (1 : ℤ) ≤ roundHalfEven (x / lastDigit b p x) :=
    le_roundHalfEven (by simpa using (one_le_div hu).mpr hle)
  exact mul_pos (by exact_mod_cast h) hu

theorem roundSig_neg (hb : 1 < b) (hp : 0 < p) (hx : x < 0) : roundSig b p x < 0 := by
  have hu := lastDigit_pos (p := p) hb x
  have hle := lastDigit_le_abs hb hp hx.ne
  rw [abs_of_neg hx] at hle
  rw [roundSig, if_neg hx.ne, roundTo]
  have h : roundHalfEven (x / lastDigit b p x) ≤ -1 := by
    refine roundHalfEven_le ?_
    rw [div_le_iff₀ hu]
    push_cast
    linarith
  exact mul_neg_of_neg_of_pos (by exact_mod_cast (by omega : roundHalfEven _ < 0)) hu

end

end Rounding
