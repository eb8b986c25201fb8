/-
  Arithmetic in a context: to a number of significant digits, in some rounding mode.

  * `Context` is a rounding that leaves values of few enough digits alone, is monotone, and moves
    a value by one unit of its last digit at most; `Context.halfEven` is the one to nearest.
  * `Context.sum_exact`: a sum of values of a grid is exact where the total has few enough digits.
-/
import AlphaLab.Lib.Ties

namespace Rounding

attribute [local instance] Numerals.two

variable {K : Type*} [Field K] [LinearOrder K] [IsStrictOrderedRing K]

/-- Arithmetic to `digits` significant digits of base `b`, in some rounding mode. -/
structure Context (b : ℕ) (K : Type*) [Field K] [LinearOrder K] where
  digits : ℕ
  digits_pos : 0 < digits
  round : K → K
  exact : ∀ {m : ℤ} {x : K}, OnGrid ((b : K) ^ m) x → |x| < (b : K) ^ (m + digits) → round x = x
  mono : Monotone round
  near : ∀ {x : K}, 0 ≤ x → |round x - x| ≤ round x * (b : K) ^ (1 - digits : ℤ)
  twice : ∀ {x : K}, 0 ≤ x → round (round x) = round x

namespace Context

section
variable [FloorRing K]

theorem near_roundSig {b : ℕ} (hb : 1 < b) {p : ℕ} (hp : 0 < p) {x : K} (hx : 0 ≤ x) :
    |roundSig b p x - x| ≤ roundSig b p x * (b : K) ^ (1 - p : ℤ) := by
  rcases hx.eq_or_lt with rfl | hpos
  · simp
  have hbase : (0 : K) < b := by exact_mod_cast Nat.zero_lt_of_lt hb
  have hunit : lastDigit b p x = (b : K) ^ Int.log b x * (b : K) ^ (1 - p : ℤ) := by
    rw [lastDigit, abs_of_pos hpos, ← zpow_add₀ hbase.ne']
    congr 1
    ring
  have hround : roundSig b p x = roundTo (lastDigit b p x) x := if_neg hpos.ne'
  have hleading : (b : K) ^ Int.log b x ≤ roundSig b p x := by
    rw [hround]
    refine le_roundTo_of_onGrid (lastDigit_pos hb x) (onGrid_zpow hbase.ne' ?_)
      (Int.zpow_log_le_self hb hpos)
    rw [abs_of_pos hpos]
    omega
  calc |roundSig b p x - x| ≤ lastDigit b p x / 2 := by
        rw [hround]
        exact abs_roundTo_sub_le (lastDigit_pos hb x) x
    _ ≤ lastDigit b p x := half_le_self (lastDigit_pos hb x).le
    _ ≤ roundSig b p x * (b : K) ^ (1 - p : ℤ) := by
        rw [hunit]
        exact mul_le_mul_of_nonneg_right hleading (zpow_pos hbase _).le

/-- Rounding to the nearest value of `p` digits, ties to even. -/
def halfEven {b : ℕ} (hb : 1 < b) (p : ℕ) (hp : 0 < p) : Context b K where
  digits := p
  digits_pos := hp
  round := roundSig b p
  exact := roundSig_of_onGrid hb
  mono _ _ h := roundSig_monotone hb hp h
  near hx := near_roundSig hb hp hx
  twice hx := roundSig_roundSig hb hp hx

/-- Twenty-eight decimal digits, half to even. -/
def standard : Context 10 K := halfEven (by decide) 28 (by decide)

end

variable {b : ℕ} (c : Context b K)

def sum (l : List K) : K := l.foldl (fun total x => c.round (total + x)) 0

/-- How far a rounding may move a value, as a share of what it is moved to. -/
def error : K := (b : K) ^ (1 - c.digits : ℤ)

theorem error_nonneg : 0 ≤ c.error := zpow_nonneg (Nat.cast_nonneg b) _

variable {c}

theorem round_zero (hb : 0 < b) : c.round 0 = 0 :=
  c.exact (m := 0) (onGrid_zero _) (by
    rw [abs_zero]
    exact zpow_pos (by exact_mod_cast hb) _)

theorem round_nonneg (hb : 0 < b) {x : K} (hx : 0 ≤ x) : 0 ≤ c.round x := by
  have hround := c.mono hx
  rwa [round_zero hb] at hround

theorem le_round_add {x : K} (hx : 0 ≤ x) : x ≤ c.round x * (1 + c.error) := by
  have hnear := (abs_le.mp (c.near hx)).1
  have herror : c.round x * (b : K) ^ (1 - c.digits : ℤ) = c.round x * c.error := rfl
  linarith

section
variable {l : List K} {a : K}

theorem le_foldl (hb : 0 < b) (hl : ∀ q ∈ l, 0 ≤ q) (ha : 0 ≤ a) (hround : c.round a = a) :
    a ≤ l.foldl (fun total x => c.round (total + x)) a := by
  induction l generalizing a with
  | nil => exact le_rfl
  | cons q l ih =>
    have hq := hl q (by simp)
    have hsum : 0 ≤ a + q := add_nonneg ha hq
    calc a = c.round a := hround.symm
      _ ≤ c.round (a + q) := c.mono (by linarith)
      _ ≤ _ := ih (fun r hr => hl r (by simp [hr])) (round_nonneg hb hsum) (c.twice hsum)

theorem add_sum_le (hb : 0 < b) (hl : ∀ q ∈ l, 0 ≤ q) (ha : 0 ≤ a) (hround : c.round a = a) :
    a + l.sum ≤ l.foldl (fun total x => c.round (total + x)) a * (1 + l.length * c.error) := by
  induction l generalizing a with
  | nil => simp
  | cons q l ih =>
    have hq := hl q (by simp)
    have hrest : ∀ r ∈ l, 0 ≤ r := fun r hr => hl r (by simp [hr])
    have hsum : 0 ≤ a + q := add_nonneg ha hq
    have hnext := ih hrest (round_nonneg hb hsum) (c.twice hsum)
    have hgrows := le_foldl hb hrest (round_nonneg hb hsum) (c.twice hsum)
    have hshort := le_round_add (c := c) hsum
    have hscaled := mul_le_mul_of_nonneg_right hgrows c.error_nonneg
    simp only [List.sum_cons, List.foldl_cons, List.length_cons, Nat.cast_add, Nat.cast_one]
    linarith

/-- **A sum in a context falls short** by one error a summand at most. -/
theorem sum_le (hb : 0 < b) (hl : ∀ q ∈ l, 0 ≤ q) : l.sum ≤ c.sum l * (1 + l.length * c.error) := by
  have hsum := add_sum_le hb hl le_rfl (round_zero (c := c) hb)
  rwa [zero_add] at hsum

theorem sum_nonneg (hb : 0 < b) (hl : ∀ q ∈ l, 0 ≤ q) : 0 ≤ c.sum l :=
  le_foldl hb hl le_rfl (round_zero hb)

/-- **A sum of values of a grid is exact** where the total has few enough digits. -/
theorem foldl_exact {m : ℤ} (hl : ∀ q ∈ l, 0 ≤ q ∧ OnGrid ((b : K) ^ m) q) (ha : 0 ≤ a)
    (hgrid : OnGrid ((b : K) ^ m) a) (hsmall : a + l.sum < (b : K) ^ (m + c.digits)) :
    l.foldl (fun total x => c.round (total + x)) a = a + l.sum := by
  induction l generalizing a with
  | nil => simp
  | cons q l ih =>
    obtain ⟨hq, hqgrid⟩ := hl q (by simp)
    have hrest : ∀ r ∈ l, 0 ≤ r ∧ OnGrid ((b : K) ^ m) r := fun r hr => hl r (by simp [hr])
    have hsum : 0 ≤ l.sum := List.sum_nonneg fun r hr => (hrest r hr).1
    rw [List.sum_cons] at hsmall
    have hnext : c.round (a + q) = a + q := by
      refine c.exact (hgrid.add hqgrid) ?_
      rw [abs_of_nonneg (add_nonneg ha hq)]
      linarith
    rw [List.foldl_cons, hnext, ih hrest (add_nonneg ha hq) (hgrid.add hqgrid) (by linarith),
      List.sum_cons]
    ring

theorem sum_exact {m : ℤ} (hl : ∀ q ∈ l, 0 ≤ q ∧ OnGrid ((b : K) ^ m) q)
    (hsmall : l.sum < (b : K) ^ (m + c.digits)) : c.sum l = l.sum := by
  rw [sum, foldl_exact hl le_rfl (onGrid_zero _) (by linarith), zero_add]

end

section
variable {x u a : K}

omit [IsStrictOrderedRing K] in
theorem round_intCast {k : ℤ} (hk : |(k : K)| < (b : K) ^ c.digits) : c.round k = k :=
  c.exact (m := 0) ⟨k, by simp⟩ (by simpa using hk)

variable [FloorRing K]

omit [FloorRing K] in
theorem mul_le_add_of_le_div {k : K} (hx : 0 < x) (hk : k ≤ a / x + 1) : k * x ≤ a + x := by
  have hkx := mul_le_mul_of_nonneg_right hk hx.le
  rwa [add_mul, div_mul_cancel₀ _ hx.ne', one_mul] at hkx

theorem le_round_div_iff (hb : 0 < b) (hu : 0 < u) (ha : 0 ≤ a) (hx : 0 < x) (hau : OnGrid u a)
    (hxu : OnGrid u x) (hsmall : (a + x) * c.error < u) {k : ℤ} (hk : (k : K) ≤ a / x + 1)
    (hdigits : a / x + 1 < (b : K) ^ c.digits) : (k : K) ≤ c.round (a / x) ↔ (k : K) ≤ a / x := by
  have hquotient : 0 ≤ a / x := div_nonneg ha hx.le
  rcases le_or_gt k 0 with hneg | hpos
  · have hle : (k : K) ≤ 0 := by exact_mod_cast hneg
    exact iff_of_true (hle.trans (round_nonneg hb hquotient)) (hle.trans hquotient)
  have hk0 : (0 : K) < k := by exact_mod_cast hpos
  have hround : c.round (k : K) = k := by
    refine round_intCast ?_
    rw [abs_of_pos hk0]
    exact hk.trans_lt hdigits
  constructor
  · intro h
    by_contra hlt
    rw [not_le] at hlt
    -- the quotient is a unit of the grid short of the number, and cannot be rounded up to it
    have hself : c.round (a / x) = k := le_antisymm (hround ▸ c.mono hlt.le) h
    have hnear := (abs_le.mp (c.near hquotient)).2
    rw [hself] at hnear
    have hshort : a + u ≤ k * x := by
      by_contra hover
      rw [not_le] at hover
      have hle := (hxu.int_mul k).le_of_lt_add hu hau hover
      rw [div_lt_iff₀ hx] at hlt
      linarith
    have hscaled : (k - a / x) * x ≤ k * c.error * x := mul_le_mul_of_nonneg_right hnear hx.le
    rw [sub_mul, div_mul_cancel₀ _ hx.ne'] at hscaled
    have hbound := mul_le_add_of_le_div hx hk
    have herror := mul_le_mul_of_nonneg_right hbound c.error_nonneg
    linarith
  · intro h
    rw [← hround]
    exact c.mono h

theorem round_div_le_iff (hu : 0 < u) (ha : 0 ≤ a) (hx : 0 < x) (hau : OnGrid u a)
    (hxu : OnGrid u x) (hsmall : (a + x) * c.error < u) {k : ℤ} (hk : (k : K) ≤ a / x + 1)
    (hk0 : 0 ≤ k) (hdigits : a / x + 1 < (b : K) ^ c.digits) : c.round (a / x) ≤ k ↔ a / x ≤ k := by
  have hquotient : 0 ≤ a / x := div_nonneg ha hx.le
  have hkK : (0 : K) ≤ k := by exact_mod_cast hk0
  constructor
  · intro h
    by_contra hgt
    rw [not_le] at hgt
    have hnear := (abs_le.mp (c.near hquotient)).1
    have hmore : k * x + u ≤ a := by
      by_contra hunder
      rw [not_le] at hunder
      have hle := hau.le_of_lt_add hu (hxu.int_mul k) hunder
      rw [lt_div_iff₀ hx] at hgt
      linarith
    have hround := mul_le_mul_of_nonneg_right h c.error_nonneg
    have herror : c.round (a / x) * (b : K) ^ (1 - c.digits : ℤ) = c.round (a / x) * c.error := rfl
    have hshort : a / x - k ≤ k * c.error := by linarith
    have hscaled : (a / x - k) * x ≤ k * c.error * x := mul_le_mul_of_nonneg_right hshort hx.le
    rw [sub_mul, div_mul_cancel₀ _ hx.ne'] at hscaled
    have hbound := mul_le_add_of_le_div hx hk
    have hless := mul_le_mul_of_nonneg_right hbound c.error_nonneg
    linarith
  · intro h
    have hround : c.round (k : K) = k := by
      refine round_intCast ?_
      rw [abs_of_nonneg hkK]
      exact hk.trans_lt hdigits
    rw [← hround]
    exact c.mono h

theorem div_add_one_lt (hb : 1 < b) (hu : 0 < u) (hx : 0 < x) (hxu : OnGrid u x)
    (hsmall : (a + x) * c.error < u) : a / x + 1 < (b : K) ^ c.digits := by
  have hbase : (0 : K) < b := by exact_mod_cast Nat.zero_lt_of_lt hb
  have hunit : u ≤ x := by
    by_contra hless
    have hle := hxu.le_of_lt_add hu (onGrid_zero u) (by linarith : x < 0 + u)
    linarith
  have herror : c.error * (b : K) ^ (c.digits : ℤ) = b := by
    rw [Context.error, ← zpow_add₀ hbase.ne', sub_add_cancel, zpow_one]
  have hdigits : (0 : K) < (b : K) ^ (c.digits : ℤ) := zpow_pos hbase _
  have hscaled := mul_lt_mul_of_pos_right (hsmall.trans_le hunit) hdigits
  rw [mul_assoc, herror] at hscaled
  have hone : (1 : K) ≤ b := by exact_mod_cast hb.le
  have hbound : (a + x) / x < (b : K) ^ (c.digits : ℤ) := by
    rw [div_lt_iff₀ hx]
    rcases le_or_gt (a + x) 0 with hneg | hpos
    · exact hneg.trans_lt (mul_pos hdigits hx)
    · calc a + x ≤ (a + x) * b := le_mul_of_one_le_right hpos.le hone
        _ < x * (b : K) ^ (c.digits : ℤ) := hscaled
        _ = (b : K) ^ (c.digits : ℤ) * x := mul_comm _ _
  rwa [add_div, div_self hx.ne', zpow_natCast] at hbound

/-- **A rounded quotient of a grid's values** has the floor and the ceiling of the quotient. -/
theorem floor_round_div (hb : 1 < b) (hu : 0 < u) (ha : 0 ≤ a) (hx : 0 < x) (hau : OnGrid u a)
    (hxu : OnGrid u x) (hsmall : (a + x) * c.error < u) :
    ⌊c.round (a / x)⌋ = ⌊a / x⌋ ∧ ⌈c.round (a / x)⌉ = ⌈a / x⌉ := by
  have hdigits := div_add_one_lt hb hu hx hxu hsmall
  have hle : ∀ {k : ℤ}, (k : K) ≤ a / x + 1 → ((k : K) ≤ c.round (a / x) ↔ (k : K) ≤ a / x) :=
    fun hk => le_round_div_iff (Nat.zero_lt_of_lt hb) hu ha hx hau hxu hsmall hk hdigits
  have hge : ∀ {k : ℤ}, (k : K) ≤ a / x + 1 → 0 ≤ k → (c.round (a / x) ≤ k ↔ a / x ≤ k) :=
    fun hk hk0 => round_div_le_iff hu ha hx hau hxu hsmall hk hk0 hdigits
  have hquotient : 0 ≤ a / x := div_nonneg ha hx.le
  have hfloor : (⌊a / x⌋ : K) ≤ a / x := Int.floor_le _
  have hfloor' : a / x < ⌊a / x⌋ + 1 := Int.lt_floor_add_one _
  have hceil : a / x ≤ ⌈a / x⌉ := Int.le_ceil _
  have hceil' : (⌈a / x⌉ : K) < a / x + 1 := Int.ceil_lt_add_one _
  constructor
  · refine Int.floor_eq_iff.mpr ⟨(hle (by linarith)).mpr hfloor, ?_⟩
    by_contra hover
    rw [not_lt] at hover
    have hnext : ((⌊a / x⌋ + 1 : ℤ) : K) ≤ c.round (a / x) := by
      push_cast
      exact hover
    have hreached := (hle (by push_cast; linarith)).mp hnext
    push_cast at hreached
    linarith
  · have hceil0 : 0 ≤ ⌈a / x⌉ := Int.ceil_nonneg hquotient
    refine le_antisymm (Int.ceil_le.mpr ((hge hceil'.le hceil0).mpr hceil)) ?_
    by_contra hunder
    rw [not_le] at hunder
    have hbelow : c.round (a / x) ≤ (⌈c.round (a / x)⌉ : K) := Int.le_ceil _
    have hnonneg : 0 ≤ ⌈c.round (a / x)⌉ := Int.ceil_nonneg (round_nonneg (Nat.zero_lt_of_lt hb) hquotient)
    have hless : ((⌈c.round (a / x)⌉ : ℤ) : K) ≤ a / x + 1 := by
      have hcast : (⌈c.round (a / x)⌉ : K) < ⌈a / x⌉ := by exact_mod_cast hunder
      linarith
    have hreached := (hge hless hnonneg).mp hbelow
    exact absurd (Int.ceil_le.mpr hreached) (not_le.mpr hunder)

end

end Context

end Rounding
