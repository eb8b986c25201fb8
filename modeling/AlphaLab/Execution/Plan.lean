/-
  What a schedule plans (`execution/algorithms.py`: `plan_schedule`, `_apportion`).

  * `Fits`: an amount whose sums the accounting context does not round;
  * `WholeTarget`: whole increments, between nothing and the parent.
-/
import AlphaLab.Execution.Algorithms
import AlphaLab.Lib.SignificantDigits

namespace AlphaLab

open Fallible Rounding

/-! ## Amounts of few digits -/

/-- A number of at most `k` decimals and 33 digits. -/
structure Fits (k : ℕ) (x : Decimal) : Prop where
  whole : Whole k x
  small : |x| < 10 ^ 33 * quantum k

section
variable {k : ℕ} {x y : Decimal}

theorem exact_of_whole (hx : Whole k x) (hsmall : |x| < 10 ^ 34 * quantum k) : Exact x := by
  rw [Whole, quantum_zpow] at hx
  refine roundSig_of_onGrid (by norm_num) hx (hsmall.trans_eq ?_)
  rw [zpow_add₀ (by norm_num), quantum_zpow, mul_comm]
  norm_num [accountingPrecision]

theorem Fits.exact (h : Fits k x) : Exact x :=
  exact_of_whole h.whole (h.small.trans (by have := quantum_pos k; linarith))

theorem Fits.add_eq (hx : Fits k x) (hy : Fits k y) : add x y = x + y := by
  refine exact_of_whole (hx.whole.add hy.whole) ((abs_add_le x y).trans_lt ?_)
  linarith [hx.small, hy.small, quantum_pos k]

theorem Fits.subtract_eq (hx : Fits k x) (hy : Fits k y) : subtract x y = x - y := by
  refine exact_of_whole (hx.whole.sub hy.whole) ((abs_sub x y).trans_lt ?_)
  linarith [hx.small, hy.small, quantum_pos k]

theorem Fits.sub (hx : Fits k x) (hy : Fits k y) (hx0 : 0 ≤ x) (hy0 : 0 ≤ y) : Fits k (x - y) := by
  refine ⟨hx.whole.sub hy.whole, abs_lt.mpr ⟨?_, ?_⟩⟩
  · linarith [hy.small, abs_of_nonneg hy0, neg_abs_le y]
  · linarith [hx.small, abs_of_nonneg hx0]

theorem Fits.of_le (hy : Fits k y) (hx : Whole k x) (hx0 : 0 ≤ x) (h : x ≤ y) : Fits k x := by
  refine ⟨hx, ?_⟩
  rw [abs_of_nonneg hx0]
  exact (h.trans (le_abs_self y)).trans_lt hy.small

theorem inContext_mono (hx : 0 ≤ x) (h : x ≤ y) : inContext x ≤ inContext y :=
  roundSig_mono (by norm_num) (by norm_num [accountingPrecision]) hx h

theorem exact_inContext (hx : 0 ≤ x) : Exact (inContext x) :=
  roundSig_roundSig (by norm_num) (by norm_num [accountingPrecision]) hx

theorem le_of_inContext_le (hx : Whole k x) (hy : Fits k y) (hy0 : 0 ≤ y)
    (h : inContext x ≤ y) : x ≤ y := by
  refine OnGrid.le_of_lt_add (quantum_pos k) hx hy.whole ?_
  by_contra hlt
  -- the next amount of the grid is one of 34 digits, and rounding respects it
  have hnext : Exact (y + quantum k) := by
    refine exact_of_whole (hy.whole.add ⟨1, by simp⟩) ?_
    have hsmall := hy.small
    rw [abs_of_nonneg hy0] at hsmall
    rw [abs_of_nonneg (by linarith [quantum_pos k])]
    linarith [quantum_pos k]
  have hle : y + quantum k ≤ inContext x := by
    rw [← hnext]
    exact roundSig_mono (by norm_num) (by norm_num [accountingPrecision])
      (by linarith [quantum_pos k]) (not_lt.mp hlt)
  linarith [quantum_pos k]

theorem inContext_le (hx : 0 ≤ x) (h : x ≤ y) (hy : Exact y) : inContext x ≤ y :=
  (inContext_mono hx h).trans_eq hy

theorem le_add_of_exact (hx0 : 0 ≤ x) (hx : Exact x) (hy : 0 ≤ y) : x ≤ add x y := by
  calc x = inContext x := hx.symm
    _ ≤ add x y := inContext_mono hx0 (le_add_of_nonneg_right hy)

theorem mul_le_of_le_divide (hx : Fits k x) (hx0 : 0 ≤ x) (hy : Whole k y) (hy0 : 0 < y) {m : ℤ}
    (h : (m : Decimal) ≤ divide x y) : m * y ≤ x := by
  refine mul_le_of_le_roundSig_div (b := 10) (by norm_num) (quantum_pos k) hy0 hx0 hy hx.whole ?_ h
  have hsmall := hx.small
  rw [abs_of_nonneg hx0] at hsmall
  norm_num [accountingPrecision]
  linarith [quantum_pos k]

theorem le_mul_of_divide_le (hx : Fits k x) (hx0 : 0 ≤ x) (hy : Whole k y) (hy0 : 0 < y) {m : ℤ}
    (h : divide x y ≤ m) : x ≤ m * y := by
  refine le_mul_of_roundSig_div_le (b := 10) (by norm_num) (quantum_pos k) hy0 hx0 hy hx.whole ?_ h
  have hsmall := hx.small
  rw [abs_of_nonneg hx0] at hsmall
  norm_num [accountingPrecision]
  linarith [quantum_pos k]

theorem requireMultiple_eq {n : ℤ} (h : requireMultiple x y = .ok n) (hx : Fits k x)
    (hx0 : 0 ≤ x) (hy : Whole k y) (hy0 : 0 < y) : x = n * y := by
  simp only [requireMultiple, bind_ok, require_ok, pure_ok] at h
  obtain ⟨-, hwhole, hn⟩ := h
  have hunits : divide x y = n := by rw [hwhole, hn]
  exact le_antisymm (le_mul_of_divide_le hx hx0 hy hy0 hunits.le)
    (mul_le_of_le_divide hx hx0 hy hy0 hunits.ge)

theorem subtract_nonneg (h : y ≤ x) : 0 ≤ subtract x y := inContext_nonneg (sub_nonneg.mpr h)

theorem divide_nonneg (hx : 0 ≤ x) (hy : 0 ≤ y) : 0 ≤ divide x y :=
  inContext_nonneg (div_nonneg hx hy)

theorem divide_mono {z : Decimal} (hx : 0 ≤ x) (h : x ≤ y) (hz : 0 ≤ z) :
    divide x z ≤ divide y z :=
  inContext_mono (div_nonneg hx hz) (div_le_div_of_nonneg_right h hz)

theorem exact_one : Exact 1 := by decide +kernel

theorem divide_le_one (hx : 0 ≤ x) (h : x ≤ y) : divide x y ≤ 1 :=
  inContext_le (div_nonneg hx (hx.trans h)) (div_le_one_of_le₀ h (hx.trans h)) exact_one

theorem subtract_le_one (hx : 0 ≤ x) (h : x ≤ 1) : subtract 1 x ≤ 1 :=
  inContext_le (by linarith) (by linarith) exact_one

end

/-! ## The share due by a clock -/

/-- `Context.exp`, as far as the schedules rely on it. -/
structure AlgorithmSupport.Exponential (support : AlgorithmSupport) : Prop where
  zero : support.exp 0 = 1
  mono : ∀ x y, 0 ≤ x → x ≤ y → support.exp x ≤ support.exp y

variable {urgency : Urgency}

section
variable {support : AlgorithmSupport} (hexp : support.Exponential)
include hexp

theorem sinh_nonneg {x : Decimal} (hx : 0 ≤ x) : 0 ≤ support.sinh x := by
  have hone : 1 ≤ support.exp x := hexp.zero ▸ hexp.mono 0 x le_rfl hx
  refine divide_nonneg (subtract_nonneg ?_) (by norm_num)
  exact (divide_le_one zero_le_one hone).trans hone

theorem sinh_mono {x y : Decimal} (hx : 0 ≤ x) (h : x ≤ y) : support.sinh x ≤ support.sinh y := by
  have hone : 1 ≤ support.exp x := hexp.zero ▸ hexp.mono 0 x le_rfl hx
  have hgrows := hexp.mono x y hx h
  have hinverse : divide 1 (support.exp y) ≤ divide 1 (support.exp x) := by
    refine inContext_mono (div_nonneg zero_le_one (by linarith)) ?_
    exact div_le_div_of_nonneg_left zero_le_one (by linarith) hgrows
  have hbelow : divide 1 (support.exp x) ≤ support.exp x :=
    (divide_le_one zero_le_one hone).trans hone
  refine divide_mono (subtract_nonneg hbelow) ?_ (by norm_num)
  exact inContext_mono (sub_nonneg.mpr hbelow) (by linarith)

/-- How much of a clock's hyperbolic sine is left at a clock. -/
theorem fraction_inside (hkappa : Exact urgency.kappa) {c : Decimal} (hc0 : 0 < c) (hc1 : c < 1) :
    0 ≤ divide (support.sinh (multiply urgency.kappa (subtract 1 c))) (support.sinh urgency.kappa) ∧
      divide (support.sinh (multiply urgency.kappa (subtract 1 c)))
        (support.sinh urgency.kappa) ≤ 1 := by
  have hleft : 0 ≤ subtract 1 c := subtract_nonneg hc1.le
  have hleft1 : subtract 1 c ≤ 1 := subtract_le_one hc0.le hc1.le
  have hscaled : 0 ≤ multiply urgency.kappa (subtract 1 c) :=
    multiply_nonneg urgency.valid.1 hleft
  have hbelow : multiply urgency.kappa (subtract 1 c) ≤ urgency.kappa :=
    inContext_le (mul_nonneg urgency.valid.1 hleft)
      (mul_le_of_le_one_right urgency.valid.1 hleft1) hkappa
  exact ⟨divide_nonneg (sinh_nonneg hexp hscaled) (sinh_nonneg hexp urgency.valid.1),
    divide_le_one (sinh_nonneg hexp hscaled) (sinh_mono hexp hscaled hbelow)⟩

theorem fraction_nonneg (hkappa : Exact urgency.kappa) (c : Decimal) :
    0 ≤ urgency.fraction support c := by
  rw [Urgency.fraction]
  split_ifs with hlow hhigh hflat
  · exact le_rfl
  · exact zero_le_one
  · exact (not_le.mp hlow).le
  · exact subtract_nonneg (fraction_inside hexp hkappa (not_le.mp hlow) (not_le.mp hhigh)).2

/-- **The share of the parent due by a clock never falls.** -/
theorem fraction_mono (hkappa : Exact urgency.kappa) {c d : Decimal} (h : c ≤ d) :
    urgency.fraction support c ≤ urgency.fraction support d := by
  by_cases hlow : c ≤ 0
  · rw [Urgency.fraction, if_pos hlow]
    exact fraction_nonneg hexp hkappa d
  have hlow' : ¬ d ≤ 0 := fun hd => hlow (h.trans hd)
  by_cases hhigh : 1 ≤ d
  · have htop : urgency.fraction support d = 1 := by
      rw [Urgency.fraction, if_neg hlow', if_pos hhigh]
    rw [htop, Urgency.fraction, if_neg hlow]
    split_ifs with hc1 hflat
    · exact le_rfl
    · exact (not_le.mp hc1).le
    · obtain ⟨h0, h1⟩ := fraction_inside hexp hkappa (not_le.mp hlow) (not_le.mp hc1)
      exact subtract_le_one h0 h1
  have hc1 : c < 1 := h.trans_lt (not_le.mp hhigh)
  rw [Urgency.fraction, Urgency.fraction, if_neg hlow, if_neg hlow', if_neg hc1.not_ge,
    if_neg hhigh]
  by_cases hflat : urgency.kappa = 0
  · rwa [if_pos hflat, if_pos hflat]
  · rw [if_neg hflat, if_neg hflat]
    have hcd := fraction_inside hexp hkappa (not_le.mp hlow) hc1
    -- less time left, less of the sine left
    have hleft : subtract 1 d ≤ subtract 1 c :=
      inContext_mono (by linarith [not_le.mp hhigh]) (by linarith)
    have hscaled : multiply urgency.kappa (subtract 1 d) ≤ multiply urgency.kappa (subtract 1 c) :=
      inContext_mono (mul_nonneg urgency.valid.1 (subtract_nonneg (not_le.mp hhigh).le))
        (mul_le_mul_of_nonneg_left hleft urgency.valid.1)
    have hpos : 0 ≤ multiply urgency.kappa (subtract 1 d) :=
      multiply_nonneg urgency.valid.1 (subtract_nonneg (not_le.mp hhigh).le)
    have hsines := divide_mono (sinh_nonneg hexp hpos) (sinh_mono hexp hpos hscaled)
      (sinh_nonneg hexp urgency.valid.1)
    exact inContext_mono (by linarith) (by linarith)

end

/-! ## Units apportioned -/

/-- The most a rounding to the accounting context moves a value, as a share of it. -/
def relativeError : Decimal := 5 / 10 ^ 34

theorem abs_inContext_sub_le (x : Decimal) : |inContext x - x| ≤ |x| * relativeError := by
  have h := abs_roundSig_sub_le (p := accountingPrecision) (b := 10) (by norm_num) x
  refine h.trans_eq ?_
  rw [relativeError]
  norm_num [accountingPrecision]

section
variable {x : Decimal}

theorem inContext_le_mul (hx : 0 ≤ x) : inContext x ≤ (1 + relativeError) * x := by
  have h := (abs_le.mp (abs_inContext_sub_le x)).2
  rw [abs_of_nonneg hx] at h
  linarith

theorem mul_le_inContext (hx : 0 ≤ x) : (1 - relativeError) * x ≤ inContext x := by
  have h := (abs_le.mp (abs_inContext_sub_le x)).1
  rw [abs_of_nonneg hx] at h
  linarith

end

theorem relativeError_bounds : 0 < relativeError ∧ relativeError < 1 := by
  constructor <;> norm_num [relativeError]

variable {weights : List Decimal}

theorem mul_sum_le_foldl_add (hw : ∀ w ∈ weights, 0 ≤ w) {acc : Decimal} (hacc : 0 ≤ acc) :
    (1 - relativeError) ^ weights.length * (acc + weights.sum) ≤ weights.foldl add acc := by
  obtain ⟨herr, herr1⟩ := relativeError_bounds
  induction weights generalizing acc with
  | nil => simp
  | cons w weights ih =>
    have hw0 := hw w (by simp)
    have hrest := fun v hv => hw v (List.mem_cons_of_mem _ hv)
    have hsum : 0 ≤ weights.sum := List.sum_nonneg hrest
    have hadd := mul_le_inContext (add_nonneg hacc hw0)
    rw [List.foldl_cons, List.sum_cons, List.length_cons, pow_succ, mul_assoc]
    refine le_trans ?_ (ih hrest (inContext_nonneg (add_nonneg hacc hw0)))
    refine mul_le_mul_of_nonneg_left ?_ (pow_nonneg (by linarith) _)
    change _ ≤ inContext (acc + w) + weights.sum
    nlinarith

theorem contextSum_nonneg (hw : ∀ w ∈ weights, 0 ≤ w) : 0 ≤ contextSum weights := by
  refine le_trans ?_ (mul_sum_le_foldl_add hw le_rfl)
  rw [zero_add]
  exact mul_nonneg (pow_nonneg (by linarith [relativeError_bounds.2]) _) (List.sum_nonneg hw)

/-- **Floors of shares that are rounded do not add up to more than there is.** -/
theorem floors_sum_le {total : ℤ} (htotal : 0 ≤ total) (hw : ∀ w ∈ weights, 0 ≤ w)
    (hfew : ((weights.length : Decimal) + 3) * (total + 1) < 2 * 10 ^ 33) :
    (weights.map fun w => ⌊divide (multiply total w) (contextSum weights)⌋).sum ≤ total := by
  obtain ⟨herr, herr1⟩ := relativeError_bounds
  have htotal' : (0 : Decimal) ≤ total := by exact_mod_cast htotal
  have hlower := mul_sum_le_foldl_add hw le_rfl
  rw [zero_add] at hlower
  change _ ≤ contextSum weights at hlower
  generalize contextSum weights = whole at hlower ⊢
  have hsum : 0 ≤ weights.sum := List.sum_nonneg hw
  have hwhole : 0 ≤ whole := (mul_nonneg (pow_nonneg (by linarith) _) hsum).trans hlower
  rcases hwhole.eq_or_lt with rfl | hpos
  · simpa [divide] using htotal
  -- each floor is at most its share of the total, rounded twice
  have hfloor : ∀ w ∈ weights, (⌊divide (multiply total w) whole⌋ : Decimal) ≤
      (1 + relativeError) ^ 2 * total / whole * w := by
    intro w hmem
    have hprod : 0 ≤ total * w := mul_nonneg htotal' (hw w hmem)
    calc (⌊divide (multiply total w) whole⌋ : Decimal) ≤ divide (multiply total w) whole :=
          Int.floor_le _
      _ ≤ (1 + relativeError) * (multiply total w / whole) :=
          inContext_le_mul (div_nonneg (inContext_nonneg hprod) hpos.le)
      _ ≤ (1 + relativeError) * ((1 + relativeError) * (total * w) / whole) := by
          have hmul := inContext_le_mul hprod
          gcongr
          exact hmul
      _ = (1 + relativeError) ^ 2 * total / whole * w := by ring
  have hfloors : ((weights.map fun w => ⌊divide (multiply total w) whole⌋).sum : Decimal) ≤
      (1 + relativeError) ^ 2 * total / whole * weights.sum := by
    have hscaled := List.sum_le_sum hfloor
    rw [List.sum_map_mul_left, List.map_id'] at hscaled
    rwa [Int.cast_list_sum, List.map_map]
  have hkept : 1 - (weights.length : Decimal) * relativeError ≤
      (1 - relativeError) ^ weights.length := by
    have hbernoulli := one_add_mul_le_pow (a := -relativeError) (by linarith) weights.length
    rw [← sub_eq_add_neg] at hbernoulli
    linarith
  have hslack : total * (1 + relativeError) ^ 2 <
      (total + 1) * (1 - (weights.length : Decimal) * relativeError) := by
    have hsmall : ((weights.length : Decimal) + 3) * (total + 1) * relativeError < 1 := by
      rw [relativeError]
      linarith
    have hsquare : relativeError ^ 2 ≤ relativeError := by nlinarith
    nlinarith
  have hlt : (weights.map fun w => ⌊divide (multiply total w) whole⌋).sum < total + 1 := by
    have hratio : (1 + relativeError) ^ 2 * total / whole * weights.sum < total + 1 := by
      rw [div_mul_eq_mul_div, div_lt_iff₀ hpos]
      rcases hsum.eq_or_lt with hzero | hsumpos
      · rw [← hzero, mul_zero]
        positivity
      · calc (1 + relativeError) ^ 2 * total * weights.sum
            < (total + 1) * (1 - (weights.length : Decimal) * relativeError) * weights.sum := by
              refine mul_lt_mul_of_pos_right ?_ hsumpos
              linarith
          _ ≤ (total + 1) * ((1 - relativeError) ^ weights.length * weights.sum) := by
              rw [mul_assoc]
              gcongr
          _ ≤ (total + 1) * whole := by gcongr
    exact_mod_cast hfloors.trans_lt hratio
  omega

theorem sum_topped (topped : List ℕ) (shares : List ℤ) (start : ℕ) :
    ((shares.zipIdx start).map fun share =>
        if share.2 ∈ topped then share.1 + 1 else share.1).sum =
      shares.sum + ((List.range' start shares.length).filter (· ∈ topped)).length := by
  induction shares generalizing start with
  | nil => simp
  | cons share shares ih =>
    rw [List.zipIdx_cons, List.map_cons, List.sum_cons, ih, List.sum_cons, List.length_cons,
      List.range'_succ, List.filter_cons]
    split_ifs with hin <;> simp_all <;> ring

theorem apportionUnits_nonneg {total : ℤ} (htotal : 0 ≤ total) (hw : ∀ w ∈ weights, 0 ≤ w) :
    ∀ unit ∈ apportionUnits total weights, 0 ≤ unit := by
  intro unit hunit
  simp only [apportionUnits, List.mem_map] at hunit
  obtain ⟨⟨share, i⟩, hshare, rfl⟩ := hunit
  have hmem := List.fst_mem_of_mem_zipIdx hshare
  simp only [List.mem_map] at hmem
  obtain ⟨_, ⟨w, hwmem, rfl⟩, rfl⟩ := hmem
  have hideal : 0 ≤ ⌊divide (multiply (total : Decimal) w) (contextSum weights)⌋ := by
    refine Int.floor_nonneg.mpr
      (divide_nonneg (multiply_nonneg ?_ (hw w hwmem)) (contextSum_nonneg hw))
    exact_mod_cast htotal
  split_ifs <;> omega

/-! ## Weights and increments -/

theorem rel_of_mem_zip_tail {r : Decimal → Decimal → Prop} :
    ∀ {l : List Decimal} {x : Decimal}, List.IsChain r (x :: l) →
      ∀ p ∈ (x :: l).zip l, r p.1 p.2
  | [], _, _, p, hp => by simp at hp
  | y :: l, x, h, p, hp => by
    rw [List.isChain_cons_cons] at h
    rw [List.zip_cons_cons, List.mem_cons] at hp
    rcases hp with rfl | hp
    · exact h.1
    · exact rel_of_mem_zip_tail h.2 p hp

variable {start «end» : Instant}

theorem timeBoundaries_ordered (h : start < «end») (count : ℕ) :
    ∀ b ∈ timeBoundaries start «end» count, b.1 < b.2 := by
  have hspan : 0 < «end» - start := by linarith
  have hpair : List.Pairwise (· < ·)
      ((List.range count).map (fun index : ℕ => start + («end» - start) * index / count) ++
        [«end»]) := by
    rw [List.pairwise_append]
    refine ⟨?_, List.pairwise_singleton _ _, ?_⟩
    · refine List.pairwise_map.mpr (List.pairwise_lt_range.imp_of_mem ?_)
      intro i j hi _ hij
      have hij' : (i : ℚ) < j := by exact_mod_cast hij
      have hcount : (0 : ℚ) < count := by exact_mod_cast (Nat.zero_le i).trans_lt (List.mem_range.mp hi)
      gcongr
    · intro a ha b hb
      obtain ⟨i, hi, rfl⟩ := List.mem_map.mp ha
      obtain rfl := List.mem_singleton.mp hb
      have hi' : (i : ℚ) < count := by exact_mod_cast List.mem_range.mp hi
      have hcount : (0 : ℚ) < count := by exact_mod_cast (Nat.zero_le i).trans_lt (List.mem_range.mp hi)
      have hpart : (i : ℚ) / count < 1 := (div_lt_one hcount).mpr hi'
      rw [mul_div_assoc]
      nlinarith
  intro b hb
  rw [timeBoundaries] at hb
  generalize (List.range count).map (fun index : ℕ => start + («end» - start) * index / count) ++
    [«end»] = edges at hpair hb
  cases edges with
  | nil => simp at hb
  | cons x l => exact rel_of_mem_zip_tail hpair.isChain b hb

theorem length_timeBoundaries (start «end» : Instant) (count : ℕ) :
    (timeBoundaries start «end» count).length = count := by
  simp [timeBoundaries]

def ExecutionAlgorithm.plannedSlices : ExecutionAlgorithm → ℕ
  | .twap slices .. => slices
  | .vwap profile .. => profile.intervals.length
  | .participation _ | .slicing .. | .sliceCount .. | .iceberg .. => 0

def ExecutionAlgorithm.ExactUrgency : ExecutionAlgorithm → Prop
  | .twap _ _ urgency | .vwap _ _ urgency => Exact urgency.kappa
  | .participation _ | .slicing .. | .sliceCount .. | .iceberg .. => True

theorem mem_profileSlices {profile : VolumeProfile} {slice : Instant × Instant × Option Decimal}
    (h : slice ∈ profileSlices profile start «end») :
    slice.1 < slice.2.1 ∧ ∀ v ∈ slice.2.2, 0 ≤ v := by
  rw [profileSlices, List.mem_filterMap] at h
  obtain ⟨interval, -, h⟩ := h
  simp only [Option.ite_none_right_eq_some, Option.some.injEq] at h
  obtain ⟨hlt, rfl⟩ := h
  refine ⟨hlt, ?_⟩
  intro v hv
  obtain ⟨volume, hvolume, rfl⟩ := Option.mem_map.mp hv
  refine multiply_nonneg (interval.nonneg volume hvolume) (divide_nonneg ?_ ?_)
  · exact subtract_nonneg hlt.le
  · exact subtract_nonneg interval.ordered.le

theorem contextSum_pos (hw : ∀ w ∈ weights, 0 ≤ w) (hpos : 0 < weights.sum) :
    0 < contextSum weights := by
  have hlower := mul_sum_le_foldl_add hw le_rfl
  rw [zero_add] at hlower
  refine lt_of_lt_of_le (mul_pos (pow_pos ?_ _) hpos) hlower
  linarith [relativeError_bounds.2]

theorem contextSum_pos_of_all (hw : ∀ w ∈ weights, 0 < w) (hsome : weights ≠ []) :
    0 < contextSum weights :=
  contextSum_pos (fun w hmem => (hw w hmem).le) (List.sum_pos _ hw hsome)

theorem missingVolumes_nil {slices : List (Instant × Instant × Option Decimal)}
    (h : missingVolumes slices start «end» = []) :
    slices ≠ [] ∧ (∀ slice ∈ slices, slice.2.2.isSome) ∧
      contextSum ((slices.map (·.2.2)).filterMap id) ≠ 0 := by
  simp only [missingVolumes, List.append_eq_nil_iff, ite_eq_left_iff, ite_eq_right_iff,
    imp_false, List.cons_ne_nil] at h
  obtain ⟨⟨hcovers, hknown⟩, hvolume⟩ := h
  have hne : slices ≠ [] := by
    rintro rfl
    simp at hcovers
  have hall : ∀ slice ∈ slices, slice.2.2.isSome := by
    intro slice hmem
    by_contra hnone
    refine hknown (List.any_eq_true.mpr ⟨slice.2.2, List.mem_map_of_mem hmem, ?_⟩)
    simpa using hnone
  refine ⟨hne, hall, fun hzero => hvolume ⟨by simpa using hne, ?_, hzero⟩⟩
  rw [List.all_eq_true]
  intro volume hmem
  obtain ⟨slice, hslice, rfl⟩ := List.mem_map.mp hmem
  exact hall slice hslice

/-- **How a clock weighs its slices**: one weight for each, not negative, and something
    together. -/
structure Clocked (algorithm : ExecutionAlgorithm) (bounds : List (Instant × Instant))
    (weights : List Decimal) (urgency : Urgency) : Prop where
  nonneg : ∀ w ∈ weights, 0 ≤ w
  planned : weights.length ≤ algorithm.plannedSlices
  urgent : algorithm.ExactUrgency → Exact urgency.kappa
  bounded : bounds.length = weights.length
  some : weights ≠ []
  positive : 0 < contextSum weights

variable {algorithm : ExecutionAlgorithm}

theorem Clocked.of_positive {bounds : List (Instant × Instant)}
    {weigh : Instant × Instant → Decimal} (hsome : bounds ≠ []) (hw : ∀ b ∈ bounds, 0 < weigh b)
    (hplanned : bounds.length ≤ algorithm.plannedSlices)
    (hurgent : algorithm.ExactUrgency → Exact urgency.kappa) :
    Clocked algorithm bounds (bounds.map weigh) urgency where
  nonneg := by
    intro w hmem
    obtain ⟨b, hb, rfl⟩ := List.mem_map.mp hmem
    exact (hw b hb).le
  planned := (List.length_map _).trans_le hplanned
  urgent := hurgent
  bounded := (List.length_map _).symm
  some := by simpa using hsome
  positive := by
    refine contextSum_pos_of_all ?_ (by simpa using hsome)
    intro w hmem
    obtain ⟨b, hb, rfl⟩ := List.mem_map.mp hmem
    exact hw b hb

theorem clockSlices_clocked {terms : AlgorithmTerms} {bounds : List (Instant × Instant)}
    {basis : ScheduleBasis} {note : List MissingVolume}
    (h : clockSlices algorithm terms = .ok (some (bounds, weights, urgency, basis, note))) :
    Clocked algorithm bounds weights urgency := by
  cases algorithm with
  | twap slices positive urgency' =>
    simp only [clockSlices, pure_ok, Option.some.injEq, Prod.mk.injEq] at h
    obtain ⟨rfl, rfl, rfl, -, -⟩ := h
    refine .of_positive ?_ (fun _ _ => zero_lt_one) (length_timeBoundaries _ _ _).le id
    rw [← List.length_pos_iff, length_timeBoundaries]
    omega
  | vwap profile missingVolume urgency' =>
    have hclipped : (profileSlices profile terms.start terms.end).length ≤
        profile.intervals.length := List.length_filterMap_le _ _
    simp only [clockSlices] at h
    by_cases hmissing : missingVolumes (profileSlices profile terms.start terms.end) terms.start
        terms.end = []
    · simp only [if_pos hmissing, pure_ok, Option.some.injEq, Prod.mk.injEq] at h
      obtain ⟨rfl, rfl, rfl, -, -⟩ := h
      obtain ⟨hne, hall, hsum⟩ := missingVolumes_nil hmissing
      rw [List.filterMap_map] at hsum
      have hnonneg : ∀ w ∈ (profileSlices profile terms.start terms.end).filterMap (·.2.2),
          0 ≤ w := by
        intro w hw
        obtain ⟨slice, hslice, hvolume⟩ := List.mem_filterMap.mp hw
        exact (mem_profileSlices hslice).2 w hvolume
      have hlength : ((profileSlices profile terms.start terms.end).filterMap (·.2.2)).length =
          (profileSlices profile terms.start terms.end).length := by
        rw [List.length_filterMap_eq_countP, List.countP_eq_length]
        exact hall
      refine ⟨hnonneg, hlength.trans_le hclipped, id, by rw [List.length_map, hlength], ?_,
        lt_of_le_of_ne (contextSum_nonneg hnonneg) (Ne.symm hsum)⟩
      rw [← List.length_pos_iff, hlength, List.length_pos_iff]
      exact hne
    · rw [if_neg hmissing] at h
      cases missingVolume with
      | refuse => cases h
      | timeWeighted =>
        simp only [pure_ok, Option.some.injEq, Prod.mk.injEq] at h
        obtain ⟨rfl, rfl, rfl, -, -⟩ := h
        split_ifs with huncovered
        · refine .of_positive ?_ (fun b hb =>
            inContext_pos (sub_pos.mpr (timeBoundaries_ordered terms.ordered _ b hb))) ?_ id
          · rw [← List.length_pos_iff, length_timeBoundaries]
            exact lt_max_of_lt_left zero_lt_one
          · rw [length_timeBoundaries]
            exact max_le (List.length_pos_iff.mpr profile.nonempty) hclipped
        · refine .of_positive ?_ ?_ ((List.length_map _).trans_le hclipped) id
          · -- a clipped profile that covers the window is not empty
            intro hnil
            have hempty : profileSlices profile terms.start terms.end = [] := by simpa using hnil
            exact huncovered (by simp [missingVolumes, hempty])
          · intro b hb
            obtain ⟨slice, hslice, rfl⟩ := List.mem_map.mp hb
            exact inContext_pos (sub_pos.mpr (mem_profileSlices hslice).1)
  | participation _ => cases h
  | slicing _ _ => cases h
  | sliceCount _ _ => cases h
  | iceberg _ _ _ _ => cases h

/-! ### What falls due -/

def runningSums (acc : Decimal) : List Decimal → List Decimal
  | [] => []
  | w :: weights => add acc w :: runningSums (add acc w) weights

theorem runningSums_eq (acc : Decimal) (weights : List Decimal) :
    runningSums acc weights = (weights.inits.drop 1).map (List.foldl add acc) := by
  induction weights generalizing acc with
  | nil => rfl
  | cons w weights ih =>
    have hinits : weights.inits = [] :: weights.inits.drop 1 := by cases weights <;> simp
    rw [runningSums, ih, List.inits_cons, List.drop_succ_cons, List.drop_zero, List.map_map]
    conv_rhs => rw [hinits]
    simp [Function.comp_def]

theorem runningSums_isChain (hw : ∀ w ∈ weights, 0 ≤ w) {acc : Decimal} (hacc0 : 0 ≤ acc)
    (hacc : Exact acc) : List.IsChain (· ≤ ·) (acc :: runningSums acc weights) := by
  induction weights generalizing acc with
  | nil => exact List.isChain_singleton _
  | cons w weights ih =>
    have hw0 := hw w (by simp)
    have hsum := add_nonneg hacc0 hw0
    rw [runningSums, List.isChain_cons_cons]
    exact ⟨le_add_of_exact hacc0 hacc hw0, ih (fun v hv => hw v (List.mem_cons_of_mem _ hv))
      (inContext_nonneg hsum) (exact_inContext hsum)⟩

theorem fractions_isChain {support : AlgorithmSupport} (hexp : support.Exponential)
    (hkappa : Exact urgency.kappa) (hw : ∀ w ∈ weights, 0 ≤ w) :
    List.IsChain (· ≤ ·) (0 :: (sliceClocks weights).map (urgency.fraction support)) := by
  have hwhole : 0 ≤ contextSum weights := contextSum_nonneg hw
  rw [sliceClocks, List.map_map]
  generalize contextSum weights = whole at hwhole ⊢
  have hmono : ∀ x y : Decimal, x ≤ y →
      urgency.fraction support (divide x whole) ≤ urgency.fraction support (divide y whole) := by
    intro x y hxy
    rcases le_total x 0 with hx | hx
    · -- before the first slice nothing is due
      have hnone : divide x whole ≤ 0 := by
        rcases (div_nonpos_of_nonpos_of_nonneg hx hwhole).lt_or_eq with hneg | hzero
        · exact (inContext_neg hneg).le
        · rw [divide, hzero, inContext_zero]
      rw [Urgency.fraction, if_pos hnone]
      exact fraction_nonneg hexp hkappa _
    · exact fraction_mono hexp hkappa (divide_mono hx hxy hwhole)
  have hsums := runningSums_isChain hw le_rfl inContext_zero
  rw [runningSums_eq] at hsums
  have hmapped := List.isChain_map_of_isChain
    (fun running => urgency.fraction support (divide running whole)) hmono hsums
  have hzero : urgency.fraction support (divide 0 whole) = 0 := by
    simp [Urgency.fraction, divide]
  rwa [List.map_cons, hzero] at hmapped

theorem dueShares_nonneg {support : AlgorithmSupport} (hexp : support.Exponential)
    (hkappa : Exact urgency.kappa) (hw : ∀ w ∈ weights, 0 ≤ w) :
    ∀ share ∈ dueShares support urgency weights, 0 ≤ share := by
  have hchain := fractions_isChain hexp hkappa hw
  intro share hshare
  obtain ⟨⟨f, g⟩, hfg, rfl⟩ := List.mem_map.mp hshare
  have hswapped : (g, f) ∈ (0 :: (sliceClocks weights).map (urgency.fraction support)).zip
      ((sliceClocks weights).map (urgency.fraction support)) := by
    rw [← List.zip_swap]
    exact List.mem_map.mpr ⟨(f, g), hfg, rfl⟩
  exact subtract_nonneg (rel_of_mem_zip_tail hchain _ hswapped)

theorem length_dueShares (support : AlgorithmSupport) (urgency : Urgency)
    (weights : List Decimal) : (dueShares support urgency weights).length = weights.length := by
  simp [dueShares, sliceClocks]

variable {quantity : Decimal}

theorem planSchedule_some {support : AlgorithmSupport} {terms : AlgorithmTerms}
    {schedule : ExecutionSchedule}
    (h : planSchedule support quantity algorithm terms = .ok (some schedule)) :
    ∃ total bounds weights urgency basis note,
      requireMultiple quantity terms.quantityIncrement = .ok total ∧ 0 < total ∧
      clockSlices algorithm terms = .ok (some (bounds, weights, urgency, basis, note)) ∧
      schedule.slices = runningSlices terms.quantityIncrement (contextSum weights) 1 0
        (bounds.zip (weights.zip (apportionUnits total (dueShares support urgency weights)))) := by
  simp only [planSchedule, bind_ok, require_ok] at h
  obtain ⟨total, htotal, _, hsome, clock, hclock, hschedule⟩ := h
  cases clock with
  | none => cases hschedule
  | some clock =>
    obtain ⟨bounds, weights, urgency, basis, note⟩ := clock
    obtain ⟨planned, hplanned, hpure⟩ := bind_ok.mp hschedule
    obtain rfl := Option.some.inj (pure_ok.mp hpure)
    simp only [scheduleOn, bind_ok, require_ok, pure_ok] at hplanned
    obtain ⟨-, -, rfl⟩ := hplanned
    exact ⟨total, bounds, weights, urgency, basis, note, htotal, hsome, hclock, rfl⟩

structure WholeTarget (increment quantity target : Decimal) : Prop where
  whole : OnGrid increment target
  nonneg : 0 ≤ target
  le : target ≤ quantity

variable {increment : Decimal}

theorem WholeTarget.zero (h : 0 ≤ quantity) :
    WholeTarget increment quantity 0 := ⟨onGrid_zero _, le_rfl, h⟩

theorem WholeTarget.fits {k : ℕ} {increment quantity target : Decimal}
    (h : WholeTarget increment quantity target) (hquantity : Fits k quantity)
    (hincrement : Whole k increment) : Fits k target :=
  hquantity.of_le (hincrement.trans h.whole) h.nonneg h.le

/-- Neither a slice's quantity nor its target is rounded, where all that falls due fits. -/
theorem slice_exact {k : ℕ} (hquantity : Fits k quantity) (hincrement : Whole k increment)
    (hpos : 0 < increment) {due share later : ℤ} (hdue : 0 ≤ due) (hshare : 0 ≤ share)
    (hlater : 0 ≤ later) (hsum : (due + (share + later) : ℤ) * increment ≤ quantity) :
    multiply increment share = share * increment ∧
      add (due * increment) (multiply increment share) =
        ((due + share : ℤ) : Decimal) * increment := by
  have hwhole : ∀ n : ℤ, 0 ≤ n → n ≤ due + share → Fits k (n * increment) := by
    intro n hn hle
    refine hquantity.of_le (hincrement.int_mul n) (mul_nonneg (by exact_mod_cast hn) hpos.le) ?_
    refine le_trans (mul_le_mul_of_nonneg_right ?_ hpos.le) hsum
    exact_mod_cast (by omega : n ≤ due + (share + later))
  have hslicequantity : multiply increment share = share * increment := by
    rw [multiply, mul_comm]
    exact (hwhole share hshare (by omega)).exact
  refine ⟨hslicequantity, ?_⟩
  rw [hslicequantity, (hwhole due hdue (by omega)).add_eq (hwhole share hshare (by omega))]
  push_cast
  ring

end AlphaLab
