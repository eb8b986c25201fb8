/-
  The square root rounded to significant digits, half even.

  * `sqrtHalfEven x` is the whole number nearest to the square root of `x`, the even one at a
    tie; `sqrtSig b p x` is the square root to `p` digits in base `b`;
  * both are monotone (`sqrtHalfEven_mono`, `sqrtSig_mono`): where the last digit changes, a
    power of the base lies between the two roots (`le_sqrtHalfEven`, `sqrtHalfEven_le`).
-/
import AlphaLab.Lib.SignificantDigits

namespace Rounding

attribute [local instance] Numerals.two

variable {K : Type*} [Field K] [LinearOrder K] [IsStrictOrderedRing K] [FloorRing K]

/-- The whole number nearest to the square root of `x`, the even one at a tie. -/
def sqrtHalfEven (x : K) : ℕ :=
  let n := Nat.sqrt ⌊x⌋₊
  if x < ((n : K) + 1 / 2) ^ 2 then n
  else if ((n : K) + 1 / 2) ^ 2 < x then n + 1
  else if Even n then n else n + 1

omit [IsStrictOrderedRing K] in
theorem sqrtHalfEven_cases (x : K) :
    sqrtHalfEven x = Nat.sqrt ⌊x⌋₊ ∨ sqrtHalfEven x = Nat.sqrt ⌊x⌋₊ + 1 := by
  simp only [sqrtHalfEven]
  split_ifs <;> simp

theorem sqrtHalfEven_mono {x y : K} (h : x ≤ y) : sqrtHalfEven x ≤ sqrtHalfEven y := by
  have hle : Nat.sqrt ⌊x⌋₊ ≤ Nat.sqrt ⌊y⌋₊ := Nat.sqrt_le_sqrt (Nat.floor_le_floor h)
  rcases hle.lt_or_eq with hlt | heq
  · calc sqrtHalfEven x ≤ Nat.sqrt ⌊x⌋₊ + 1 := by
          rcases sqrtHalfEven_cases x with hx | hx <;> omega
      _ ≤ Nat.sqrt ⌊y⌋₊ := hlt
      _ ≤ sqrtHalfEven y := by rcases sqrtHalfEven_cases y with hy | hy <;> omega
  · simp only [sqrtHalfEven, heq]
    split_ifs <;> first | omega | (exfalso; linarith)

omit [IsStrictOrderedRing K] in
theorem le_sqrtHalfEven {x : K} {k : ℕ} (h : (k : K) ^ 2 ≤ x) : k ≤ sqrtHalfEven x := by
  have hk : k ≤ Nat.sqrt ⌊x⌋₊ := by
    refine Nat.le_sqrt'.mpr (Nat.le_floor ?_)
    exact_mod_cast h
  rcases sqrtHalfEven_cases x with hx | hx <;> omega

theorem sqrtHalfEven_le {x : K} {k : ℕ} (h : x ≤ (k : K) ^ 2) : sqrtHalfEven x ≤ k := by
  refine (sqrtHalfEven_mono h).trans_eq ?_
  have hfloor : ⌊(k : K) ^ 2⌋₊ = k ^ 2 := by exact_mod_cast Nat.floor_natCast (R := K) (k ^ 2)
  have hlt : (k : K) ^ 2 < ((k : K) + 1 / 2) ^ 2 := by
    nlinarith [(Nat.cast_nonneg k : (0 : K) ≤ k)]
  simp only [sqrtHalfEven, hfloor, Nat.sqrt_eq']
  rw [if_pos hlt]

/-- The last of `p` digits of the square root of `x` in base `b`. -/
def sqrtDigit (b p : ℕ) (x : K) : K := (b : K) ^ (Int.log b x / 2 + 1 - p)

/-- The square root of `x` rounded half even to `p` significant digits in base `b`. -/
def sqrtSig (b p : ℕ) (x : K) : K :=
  if x ≤ 0 then 0 else sqrtHalfEven (x / sqrtDigit b p x ^ 2) * sqrtDigit b p x

section
variable {b p : ℕ}

theorem sqrtDigit_pos (hb : 1 < b) (x : K) : 0 < sqrtDigit b p x :=
  zpow_pos (by exact_mod_cast Nat.zero_lt_of_lt hb) _

theorem sqrtSig_nonneg (hb : 1 < b) (x : K) : 0 ≤ sqrtSig b p x := by
  rw [sqrtSig]
  split_ifs
  · exact le_rfl
  · exact mul_nonneg (Nat.cast_nonneg _) (sqrtDigit_pos hb x).le

theorem sqrtSig_mono (hb : 1 < b) (hp : 0 < p) {x y : K} (h : x ≤ y) :
    sqrtSig b p x ≤ sqrtSig b p y := by
  by_cases hx : x ≤ 0
  · rw [sqrtSig, if_pos hx]
    exact sqrtSig_nonneg hb y
  have hxpos := not_le.mp hx
  have hypos := hxpos.trans_le h
  rw [sqrtSig, sqrtSig, if_neg hx, if_neg hypos.not_ge]
  have hb0 : (0 : K) < b := by exact_mod_cast Nat.zero_lt_of_lt hb
  have hlog : Int.log b x / 2 ≤ Int.log b y / 2 :=
    Int.ediv_le_ediv (by norm_num) (Int.log_mono_right hxpos h)
  rcases hlog.eq_or_lt with heq | hlt
  · -- the same last digit
    have hunit : sqrtDigit b p x = sqrtDigit b p y := by rw [sqrtDigit, sqrtDigit, heq]
    rw [hunit]
    have hround : sqrtHalfEven (x / sqrtDigit b p y ^ 2) ≤
        sqrtHalfEven (y / sqrtDigit b p y ^ 2) :=
      sqrtHalfEven_mono (div_le_div_of_nonneg_right h (sq_nonneg _))
    exact mul_le_mul_of_nonneg_right (by exact_mod_cast hround) (sqrtDigit_pos hb y).le
  · -- a power of the base lies between the roots, a whole number of either last digit
    have hwhole : ∀ {z : K} {e : ℤ}, Int.log b z / 2 ≤ e →
        ∃ k : ℕ, (k : K) * sqrtDigit b p z = (b : K) ^ e := by
      intro z e he
      refine ⟨b ^ (e - (Int.log b z / 2 + 1 - p)).toNat, ?_⟩
      have hnonneg : 0 ≤ e - (Int.log b z / 2 + 1 - p) := by omega
      rw [sqrtDigit, Nat.cast_pow, ← zpow_natCast, Int.toNat_of_nonneg hnonneg,
        ← zpow_add₀ hb0.ne', sub_add_cancel]
    have hsquare : ∀ {z : K} {k : ℕ} {e : ℤ}, (k : K) * sqrtDigit b p z = (b : K) ^ e →
        (k : K) ^ 2 = (b : K) ^ (2 * e) / sqrtDigit b p z ^ 2 := by
      intro z k e hk
      rw [eq_div_iff (pow_pos (sqrtDigit_pos hb z) 2).ne', ← mul_pow, hk, ← zpow_natCast,
        ← zpow_mul, mul_comm e]
      rfl
    obtain ⟨k, hk⟩ := hwhole (z := x) (e := Int.log b x / 2 + 1) (by omega)
    obtain ⟨m, hm⟩ := hwhole (z := y) (e := Int.log b y / 2) le_rfl
    have hupper : sqrtHalfEven (x / sqrtDigit b p x ^ 2) ≤ k := by
      refine sqrtHalfEven_le ?_
      rw [hsquare hk]
      refine div_le_div_of_nonneg_right ?_ (sq_nonneg _)
      refine (Int.lt_zpow_succ_log_self hb x).le.trans (zpow_le_zpow_right₀ ?_ (by omega))
      exact_mod_cast hb.le
    have hlower : m ≤ sqrtHalfEven (y / sqrtDigit b p y ^ 2) := by
      refine le_sqrtHalfEven ?_
      rw [hsquare hm]
      refine div_le_div_of_nonneg_right ?_ (sq_nonneg _)
      refine (zpow_le_zpow_right₀ ?_ (by omega)).trans (Int.zpow_log_le_self hb hypos)
      exact_mod_cast hb.le
    calc (sqrtHalfEven (x / sqrtDigit b p x ^ 2) : K) * sqrtDigit b p x
        ≤ k * sqrtDigit b p x :=
          mul_le_mul_of_nonneg_right (by exact_mod_cast hupper) (sqrtDigit_pos hb x).le
      _ = (b : K) ^ (Int.log b x / 2 + 1) := hk
      _ ≤ (b : K) ^ (Int.log b y / 2) := zpow_le_zpow_right₀ (by exact_mod_cast hb.le) (by omega)
      _ = m * sqrtDigit b p y := hm.symm
      _ ≤ sqrtHalfEven (y / sqrtDigit b p y ^ 2) * sqrtDigit b p y :=
          mul_le_mul_of_nonneg_right (by exact_mod_cast hlower) (sqrtDigit_pos hb y).le

end

end Rounding
