/-
  What the multipliers of one orthant say about the costed optimum.

  `SideCertificate s x m μ`: the multipliers `m` of the compiled constraints and `μ` of the sides show
  that `x` is least in the orthant `s`.

  * `sideCertificate`, `SideCertificate.kuhnTucker`: such certificates are the multipliers of the
    orthant's program;
  * `SideCertificate.cross`: where `x` is least on both sides of an asset, the multipliers of the one
    side can be moved.
-/
import AlphaLab.Optimizer.Costs

namespace AlphaLab

open QuadraticForms Fallible Positions

attribute [local instance] Numerals.two

variable {n : ℕ} {K : Type} [Field K] [LinearOrder K]
variable {p : ConstructionProblem n K} {compiled : Compiled n K} {side : SideText}
  {costs : LinearCosts n K} {scale : K} {linear : Fin n → K} {s : Signs n} {x y : Fin n → K}

/-! ## Orthants -/

theorem LinearCosts.mem_charged {i : Fin n} : i ∈ costs.charged ↔ 0 < costs.rates i := by
  simp [LinearCosts.charged]

theorem LinearCosts.charged_nodup (costs : LinearCosts n K) : costs.charged.Nodup :=
  (List.nodup_finRange n).filter _

def Sided (costs : LinearCosts n K) (s : Signs n) : Prop := ∀ i, s i ≠ 0 ↔ 0 < costs.rates i

def OnSides (costs : LinearCosts n K) (s : Signs n) (x : Fin n → K) : Prop :=
  ∀ i ∈ costs.charged, 0 ≤ (s i : K) * (x i - costs.current i)

theorem sided_startSigns (weights : Fin n → K) : Sided costs (startSigns costs weights) := by
  intro i
  simp only [startSigns]
  split_ifs <;> simp_all

theorem Sided.flip (hs : Sided costs s) (i : Fin n) : Sided costs (flip s i) := by
  intro j
  rcases eq_or_ne j i with rfl | hj
  · simpa [AlphaLab.flip] using hs j
  · simpa [AlphaLab.flip, hj] using hs j

omit [LinearOrder K] in
theorem sideConstraint_slack (p : ConstructionProblem n K) (side : SideText) (i : Fin n) :
    (sideConstraint p side costs s i).slack x = s i * (x i - costs.current i) := by
  simp only [sideConstraint, LinearConstraint.slack, dot, List.map_cons, List.map_nil, List.sum_cons,
    List.sum_nil]
  ring

theorem mem_orthant : x ∈ feasible (orthant p compiled side costs scale linear s).constraints
    (orthant p compiled side costs scale linear s).absoluteSums ↔
      x ∈ compiled.portfolios ∧ OnSides costs s x := by
  simp only [feasible, orthant, Compiled.portfolios, Set.mem_ofPred_eq, List.forall_mem_append,
    List.forall_mem_map, LinearConstraint.Holds, OnSides, ← sideConstraint_slack p side]
  simp only [sideConstraint, Bool.false_eq_true, if_false]
  tauto

/-! ## Certificates -/

variable (p compiled side costs scale linear)

def pricedValue (s : Signs n) (m : Multipliers K) (μ : Fin n → K) (y : Fin n → K) : K :=
  (p.program compiled scale linear).lagrangian m y +
    ∑ i, (costs.rates i * s i * y i - μ i * (s i * (y i - costs.current i)))

/-- Multipliers of the compiled constraints and of the sides, for `x` in an orthant. -/
structure SideCertificate (s : Signs n) (x : Fin n → K) (m : Multipliers K) (μ : Fin n → K) :
    Prop where
  mem : x ∈ compiled.portfolios
  sides : OnSides costs s x
  linear_nonneg : ∀ c ∈ compiled.linear.zipIdx, c.1.equality = false → 0 ≤ m.linear c.2
  linear_slack : ∀ c ∈ compiled.linear.zipIdx, m.linear c.2 * c.1.slack x = 0
  absolute_nonneg : ∀ f ∈ compiled.absolute.zipIdx, 0 ≤ m.absolute f.2
  absolute_excess : ∀ f ∈ compiled.absolute.zipIdx, m.absolute f.2 * f.1.excess x = 0
  side_nonneg : ∀ i ∈ costs.charged, 0 ≤ μ i
  side_slack : ∀ i ∈ costs.charged, μ i * (s i * (x i - costs.current i)) = 0
  least : ∀ y, pricedValue p compiled costs scale linear s m μ x ≤
    pricedValue p compiled costs scale linear s m μ y

def sideMultiplier (m : Multipliers K) (i : Fin n) : K :=
  m.linear (compiled.linear.length + costs.charged.idxOf i)

variable {p compiled side costs scale linear} {m : Multipliers K} {μ : Fin n → K}

theorem sum_charged {g : Fin n → K} (hg : ∀ i, ¬0 < costs.rates i → g i = 0) :
    (costs.charged.map g).sum = ∑ i, g i := by
  have hrest : (((List.finRange n).filter fun i => ¬0 < costs.rates i).map g).sum = 0 := by
    refine List.sum_eq_zero ?_
    simp only [List.forall_mem_map, List.mem_filter, decide_eq_true_eq]
    exact fun i hi => hg i hi.2
  rw [Fin.sum_univ_def, ← List.sum_map_filter_add_sum_map_filter_not (fun i => 0 < costs.rates i) g
    (List.finRange n), hrest, add_zero]
  rfl

theorem orthant_lagrangian (hs : Sided costs s) (y : Fin n → K) :
    (orthant p compiled side costs scale linear s).lagrangian m y =
      pricedValue p compiled costs scale linear s m (sideMultiplier compiled costs m) y := by
  have hsides : (costs.charged.map fun i =>
      sideMultiplier compiled costs m i * (s i * (y i - costs.current i))).sum =
      ∑ i, sideMultiplier compiled costs m i * (s i * (y i - costs.current i)) := by
    refine sum_charged fun i hi => ?_
    have hzero : s i = 0 := by simpa using mt (hs i).mp hi
    simp [hzero]
  simp only [QuadraticProgram.lagrangian, orthant, pricedValue, QuadraticProgram.objective, value,
    sum_zipIdx_append_map _ _ costs.charged_nodup, sideConstraint_slack, ConstructionProblem.program,
    Finset.sum_sub_distrib]
  rw [← hsides]
  simp only [sideMultiplier, dotProduct, add_mul, Finset.sum_add_distrib]
  ring

theorem sideCertificate (hs : Sided costs s)
    (h : KuhnTucker (orthant p compiled side costs scale linear s) x m) :
    SideCertificate p compiled costs scale linear s x m (sideMultiplier compiled costs m) := by
  obtain ⟨hmem, hsides⟩ := mem_orthant.mp h.meets
  have hnonneg := (forall_zipIdx_append_map _ _ costs.charged_nodup _).mp h.linear_nonneg
  have hslack := (forall_zipIdx_append_map _ _ costs.charged_nodup _).mp h.linear_slack
  refine ⟨hmem, hsides, hnonneg.1, hslack.1, h.absolute_nonneg, h.absolute_excess, ?_, ?_, ?_⟩
  · exact fun i hi => hnonneg.2 i hi rfl
  · intro i hi
    have hi' := hslack.2 i hi
    rwa [sideConstraint_slack] at hi'
  · intro y
    simpa only [orthant_lagrangian hs] using h.least y

namespace SideCertificate

def multipliers (compiled : Compiled n K) (costs : LinearCosts n K) (m : Multipliers K)
    (μ : Fin n → K) : Multipliers K where
  linear k := if k < compiled.linear.length then m.linear k
    else (costs.charged[k - compiled.linear.length]?).elim 0 μ
  absolute := m.absolute

theorem sideMultiplier_multipliers {i : Fin n} (hi : i ∈ costs.charged) :
    sideMultiplier compiled costs (multipliers compiled costs m μ) i = μ i := by
  have hlt : ¬compiled.linear.length + costs.charged.idxOf i < compiled.linear.length := by omega
  simp only [sideMultiplier, multipliers, if_neg hlt, Nat.add_sub_cancel_left]
  rw [List.getElem?_idxOf hi]
  rfl

theorem linear_multipliers {c : LinearConstraint n K × ℕ} (hc : c ∈ compiled.linear.zipIdx) :
    (multipliers compiled costs m μ).linear c.2 = m.linear c.2 :=
  if_pos (List.mem_zipIdx' (x := c.1) (i := c.2) hc).1

theorem kuhnTucker (side : SideText) (hs : Sided costs s)
    (h : SideCertificate p compiled costs scale linear s x m μ) :
    KuhnTucker (orthant p compiled side costs scale linear s) x
      (multipliers compiled costs m μ) := by
  have hpriced (y : Fin n → K) :
      (orthant p compiled side costs scale linear s).lagrangian (multipliers compiled costs m μ) y =
        pricedValue p compiled costs scale linear s m μ y := by
    have hlinear : (compiled.linear.zipIdx.map fun c =>
        (multipliers compiled costs m μ).linear c.2 * c.1.slack y) =
        compiled.linear.zipIdx.map fun c => m.linear c.2 * c.1.slack y :=
      List.map_congr_left fun c hc => by rw [linear_multipliers hc]
    have hsides : ∀ i, sideMultiplier compiled costs (multipliers compiled costs m μ) i *
        (s i * (y i - costs.current i)) = μ i * (s i * (y i - costs.current i)) := by
      intro i
      by_cases hi : i ∈ costs.charged
      · rw [sideMultiplier_multipliers hi]
      · have hzero : s i = 0 := by
          simpa using mt (hs i).mp (mt LinearCosts.mem_charged.mpr hi)
        simp [hzero]
    rw [orthant_lagrangian hs]
    simp only [pricedValue, hsides, QuadraticProgram.lagrangian, ConstructionProblem.program, hlinear]
    rfl
  refine ⟨mem_orthant.mpr ⟨h.mem, h.sides⟩, ?_, ?_, h.absolute_nonneg, h.absolute_excess, ?_⟩
  · refine (forall_zipIdx_append_map _ _ costs.charged_nodup _).mpr ⟨?_, ?_⟩
    · intro c hc
      rw [linear_multipliers hc]
      exact h.linear_nonneg c hc
    · intro i hi _
      change 0 ≤ sideMultiplier compiled costs (multipliers compiled costs m μ) i
      rw [sideMultiplier_multipliers hi]
      exact h.side_nonneg i hi
  · refine (forall_zipIdx_append_map _ _ costs.charged_nodup _).mpr ⟨?_, ?_⟩
    · intro c hc
      rw [linear_multipliers hc]
      exact h.linear_slack c hc
    · intro i hi
      change sideMultiplier compiled costs (multipliers compiled costs m μ) i * _ = 0
      rw [sideMultiplier_multipliers hi, sideConstraint_slack]
      exact h.side_slack i hi
  · intro y
    rw [hpriced, hpriced]
    exact h.least y

end SideCertificate

/-! ## Costs -/

section
variable [IsStrictOrderedRing K]

omit [LinearOrder K] [IsStrictOrderedRing K] in
theorem value_add_linear (G : Matrix (Fin n) (Fin n) K) (a b x : Fin n → K) :
    value G (fun i => a i + b i) x = value G a x + ∑ i, b i * x i := by
  simp only [value, dotProduct, add_mul, Finset.sum_add_distrib]
  ring

theorem rate_mul_abs (hs : Sided costs s) (hrates : ∀ i, 0 ≤ costs.rates i) (hx : OnSides costs s x)
    (i : Fin n) : costs.rates i * |x i - costs.current i| =
      costs.rates i * (s i * (x i - costs.current i)) := by
  rcases (hrates i).eq_or_lt with hzero | hpos
  · rw [← hzero, zero_mul, zero_mul]
  have hside := hx i (LinearCosts.mem_charged.mpr hpos)
  rcases hsign : s i with _ | _ | _
  · exact absurd hsign ((hs i).mpr hpos)
  · simp only [hsign, SignType.neg_eq_neg_one, SignType.coe_neg_one, neg_one_mul] at hside ⊢
    rw [abs_of_nonpos (by linarith)]
  · simp only [hsign, SignType.pos_eq_one, SignType.coe_one, one_mul] at hside ⊢
    rw [abs_of_nonneg hside]

def offset (costs : LinearCosts n K) (s : Signs n) : K :=
  ∑ i, costs.rates i * s i * costs.current i

theorem costed_eq (hs : Sided costs s) (hrates : ∀ i, 0 ≤ costs.rates i) (hx : OnSides costs s x) :
    costedObjective p costs scale linear x =
      value (scale • p.covariance) linear x + ∑ i, costs.rates i * s i * x i - offset costs s := by
  simp only [costedObjective, rate_mul_abs hs hrates hx, offset]
  rw [add_sub_assoc, ← Finset.sum_sub_distrib]
  refine congrArg _ (Finset.sum_congr rfl ?_)
  intro i _
  ring

omit [IsStrictOrderedRing K] in
theorem orthant_objective (y : Fin n → K) :
    (orthant p compiled side costs scale linear s).objective y =
      value (scale • p.covariance) linear y + ∑ i, costs.rates i * s i * y i :=
  value_add_linear _ _ _ _

namespace SideCertificate

variable {m : Multipliers K} {μ : Fin n → K}

omit [IsStrictOrderedRing K] in
theorem pricedValue_self (h : SideCertificate p compiled costs scale linear s x m μ)
    (hs : Sided costs s) : pricedValue p compiled costs scale linear s m μ x =
      value (scale • p.covariance) linear x + ∑ i, costs.rates i * s i * x i := by
  have hprogram := (p.program compiled scale linear).lagrangian_eq h.linear_slack h.absolute_excess
  have hslack : ∀ i, μ i * (s i * (x i - costs.current i)) = 0 := by
    intro i
    by_cases hi : i ∈ costs.charged
    · exact h.side_slack i hi
    · have hzero : s i = 0 := by simpa using mt (hs i).mp (mt LinearCosts.mem_charged.mpr hi)
      simp [hzero]
  simp only [pricedValue, hprogram, hslack, sub_zero]
  rfl

/-- Against any portfolio the costed value at `x` is no larger, but for what the multipliers of the
sides leave of the costs. -/
theorem costed_le (h : SideCertificate p compiled costs scale linear s x m μ) (hs : Sided costs s)
    (hrates : ∀ i, 0 ≤ costs.rates i) (hy : y ∈ compiled.portfolios) :
    costedObjective p costs scale linear x ≤ value (scale • p.covariance) linear y +
      ∑ i, (costs.rates i - μ i) * (s i * (y i - costs.current i)) := by
  have hleast := h.least y
  have hprices : (p.program compiled scale linear).lagrangian m y ≤
      value (scale • p.covariance) linear y :=
    QuadraticProgram.lagrangian_le h.linear_nonneg h.absolute_nonneg hy
  rw [h.pricedValue_self hs, pricedValue] at hleast
  have hsplit : ∑ i, (costs.rates i * s i * y i - μ i * (s i * (y i - costs.current i))) =
      ∑ i, (costs.rates i - μ i) * (s i * (y i - costs.current i)) + offset costs s := by
    rw [offset, ← Finset.sum_add_distrib]
    refine Finset.sum_congr rfl ?_
    intro i _
    ring
  rw [costed_eq hs hrates h.sides]
  linarith

end SideCertificate

omit [LinearOrder K] [IsStrictOrderedRing K] in
def Multipliers.mix (t u : K) (m m' : Multipliers K) : Multipliers K :=
  ⟨fun k => t * m.linear k + u * m'.linear k, fun k => t * m.absolute k + u * m'.absolute k⟩

variable {m m' : Multipliers K} {μ μ' : Fin n → K} {i : Fin n}

theorem pricedValue_mix {t u : K} (htu : t + u = 1) (y : Fin n → K) :
    pricedValue p compiled costs scale linear s (m.mix t u m') (fun j => t * μ j + u * μ' j) y =
      t * pricedValue p compiled costs scale linear s m μ y +
        u * pricedValue p compiled costs scale linear s m' μ' y := by
  have hlinear : (compiled.linear.zipIdx.map fun c => (m.mix t u m').linear c.2 * c.1.slack y).sum =
      t * (compiled.linear.zipIdx.map fun c => m.linear c.2 * c.1.slack y).sum +
        u * (compiled.linear.zipIdx.map fun c => m'.linear c.2 * c.1.slack y).sum := by
    simp only [← List.sum_map_mul_left, ← List.sum_map_add, Multipliers.mix, add_mul, mul_assoc]
  have habsolute : (compiled.absolute.zipIdx.map fun f =>
      (m.mix t u m').absolute f.2 * f.1.excess y).sum =
      t * (compiled.absolute.zipIdx.map fun f => m.absolute f.2 * f.1.excess y).sum +
        u * (compiled.absolute.zipIdx.map fun f => m'.absolute f.2 * f.1.excess y).sum := by
    simp only [← List.sum_map_mul_left, ← List.sum_map_add, Multipliers.mix, add_mul, mul_assoc]
  have hsides : ∑ j, (costs.rates j * s j * y j -
      (t * μ j + u * μ' j) * (s j * (y j - costs.current j))) =
      t * ∑ j, (costs.rates j * s j * y j - μ j * (s j * (y j - costs.current j))) +
        u * ∑ j, (costs.rates j * s j * y j - μ' j * (s j * (y j - costs.current j))) := by
    rw [Finset.mul_sum, Finset.mul_sum, ← Finset.sum_add_distrib]
    refine Finset.sum_congr rfl ?_
    intro j _
    linear_combination (-(costs.rates j * s j * y j)) * htu
  simp only [pricedValue, QuadraticProgram.lagrangian, ConstructionProblem.program]
  rw [hlinear, habsolute, hsides]
  linear_combination (-QuadraticProgram.objective
    ⟨scale • p.covariance, linear, compiled.linear, compiled.absolute⟩ y) * htu

def acrossMultiplier (costs : LinearCosts n K) (i : Fin n) (μ : Fin n → K) : Fin n → K :=
  Function.update μ i (2 * costs.rates i - μ i)

omit [IsStrictOrderedRing K] in
theorem pricedValue_flip (y : Fin n → K) :
    pricedValue p compiled costs scale linear (flip s i) m μ y =
      pricedValue p compiled costs scale linear s m (acrossMultiplier costs i μ) y -
        2 * (costs.rates i * s i * costs.current i) := by
  have hterm : ∀ j, costs.rates j * (flip s i j : K) * y j -
      μ j * ((flip s i j : K) * (y j - costs.current j)) =
      costs.rates j * s j * y j -
        acrossMultiplier costs i μ j * (s j * (y j - costs.current j)) -
          if j = i then 2 * (costs.rates i * s i * costs.current i) else 0 := by
    intro j
    rcases eq_or_ne j i with rfl | hj
    · simp only [flip, acrossMultiplier, Function.update_self, if_true, SignType.coe_neg]
      ring
    · simp only [flip, acrossMultiplier, Function.update_of_ne hj, if_neg hj, sub_zero]
  simp only [pricedValue, hterm]
  rw [Finset.sum_sub_distrib, Finset.sum_ite_eq' Finset.univ i]
  simp only [Finset.mem_univ, if_true]
  ring

theorem OnSides.current_of_flip (hi : i ∈ costs.charged) (hs : Sided costs s)
    (hx : OnSides costs s x) (hx' : OnSides costs (flip s i) x) : x i = costs.current i := by
  have hside := hx i hi
  have hother := hx' i hi
  have hne := (hs i).mpr (LinearCosts.mem_charged.mp hi)
  simp only [flip, Function.update_self, SignType.coe_neg, neg_mul] at hother
  have hcast : (s i : K) ≠ 0 := by rcases hsign : s i with _ | _ | _ <;> simp_all
  have hzero : (s i : K) * (x i - costs.current i) = 0 := by linarith
  exact sub_eq_zero.mp ((mul_eq_zero.mp hzero).resolve_left hcast)

/-- **Multipliers across a side.**  Where `x` is least on both sides of an asset and the multiplier of
the one exceeds twice the rate, multipliers can be found there at exactly twice the rate. -/
theorem SideCertificate.cross (h : SideCertificate p compiled costs scale linear s x m μ)
    (h' : SideCertificate p compiled costs scale linear (flip s i) x m' μ') (hs : Sided costs s)
    (hi : i ∈ costs.charged) (hexcess : 2 * costs.rates i < μ i) :
    ∃ m'' μ'', SideCertificate p compiled costs scale linear s x m'' μ'' ∧
      μ'' i = 2 * costs.rates i := by
  have hcurrent := h.sides.current_of_flip hi hs h'.sides
  have hμ' := h'.side_nonneg i hi
  have hrate := LinearCosts.mem_charged.mp hi
  obtain ⟨t, u, ht, hu, htu, hbalance⟩ : ∃ t u : K, 0 ≤ t ∧ 0 ≤ u ∧ t + u = 1 ∧
      t * μ i + u * (2 * costs.rates i - μ' i) = 2 * costs.rates i := by
    have hpos : 0 < μ i - 2 * costs.rates i + μ' i := by linarith
    refine ⟨μ' i / (μ i - 2 * costs.rates i + μ' i),
      (μ i - 2 * costs.rates i) / (μ i - 2 * costs.rates i + μ' i),
      div_nonneg hμ' hpos.le, div_nonneg (by linarith) hpos.le, ?_, ?_⟩
    · field_simp
      ring
    · field_simp
      ring
  have hacross : ∀ j ∈ costs.charged, j ≠ i → acrossMultiplier costs i μ' j = μ' j :=
    fun j _ hj => Function.update_of_ne hj _ _
  refine ⟨m.mix t u m', fun j => t * μ j + u * acrossMultiplier costs i μ' j,
    ⟨h.mem, h.sides, ?_, ?_, ?_, ?_, ?_, ?_, ?_⟩, ?_⟩
  · exact fun c hc he => add_nonneg (mul_nonneg ht (h.linear_nonneg c hc he))
      (mul_nonneg hu (h'.linear_nonneg c hc he))
  · intro c hc
    have hslack := h.linear_slack c hc
    have hslack' := h'.linear_slack c hc
    simp only [Multipliers.mix]
    linear_combination t * hslack + u * hslack'
  · exact fun f hf => add_nonneg (mul_nonneg ht (h.absolute_nonneg f hf))
      (mul_nonneg hu (h'.absolute_nonneg f hf))
  · intro f hf
    have hexcess := h.absolute_excess f hf
    have hexcess' := h'.absolute_excess f hf
    simp only [Multipliers.mix]
    linear_combination t * hexcess + u * hexcess'
  · intro j hj
    rcases eq_or_ne j i with rfl | hne
    · simp only [acrossMultiplier, Function.update_self]
      rw [hbalance]
      linarith
    · rw [hacross j hj hne]
      exact add_nonneg (mul_nonneg ht (h.side_nonneg j hj)) (mul_nonneg hu (h'.side_nonneg j hj))
  · intro j hj
    rcases eq_or_ne j i with rfl | hne
    · rw [hcurrent, sub_self, mul_zero, mul_zero]
    · have hslack := h.side_slack j hj
      have hslack' := h'.side_slack j hj
      simp only [flip, Function.update_of_ne hne] at hslack'
      rw [hacross j hj hne]
      linear_combination t * hslack + u * hslack'
  · intro y
    have hleast := h.least y
    have hleast' := h'.least y
    rw [pricedValue_flip, pricedValue_flip] at hleast'
    rw [pricedValue_mix htu, pricedValue_mix htu]
    exact add_le_add (mul_le_mul_of_nonneg_left hleast ht)
      (mul_le_mul_of_nonneg_left (by linarith) hu)
  · simpa only [acrossMultiplier, Function.update_self] using hbalance

end

end AlphaLab
