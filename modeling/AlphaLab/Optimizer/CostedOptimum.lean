/-
  The costed optimum found orthant by orthant.

  * `Walk.Sound`: the walk's invariant; `orthantStep_sound` is what one orthant does to it;
  * `costed_optimum_by_orthants`: the walk ends, it never goes up, and what it returns is least to
    within the convergence tolerance.
-/
import AlphaLab.Optimizer.Cap
import AlphaLab.Optimizer.Orthants

namespace AlphaLab

open QuadraticForms Fallible Positions Matrix

attribute [local instance] Numerals.two Numerals.three Numerals.four Numerals.two_ne_zero

variable {n : ℕ}

def EndsInDigit {K : Type} (N : Arithmetic K) : Prop :=
  ∀ x, ∃ c, (N.repr x).toList.getLast? = some c ∧ c.isDigit

section
variable {K : Type} [Field K] [LinearOrder K] {N : Arithmetic K} {p : ConstructionProblem n K}
  {compiled : Compiled n K} {side : SideText} {costs : LinearCosts n K} {scale : K}
  {linear : Fin n → K} {s : Signs n} {m : Multipliers K} {i : Fin n}

structure LabelsApart (p : ConstructionProblem n K) (compiled : Compiled n K) (side : SideText) :
    Prop where
  linear : ∀ c ∈ compiled.linear, ∀ i, c.label ≠ sideLabel p side i
  absolute : ∀ f ∈ compiled.absolute, ∀ i, f.label ≠ sideLabel p side i

omit [Field K] [LinearOrder K] in
theorem ne_sideLabel (hN : EndsInDigit N) (before : String) (x : K) (i : Fin n) :
    before ++ N.repr x ≠ sideLabel p side i := by
  intro h
  obtain ⟨c, hc, hdigit⟩ := hN x
  have hlast := congrArg (fun t : String => t.toList.getLast?) h
  simp only [String.toList_append, sideLabel, side.closes] at hlast
  rw [List.getLast?_append, hc] at hlast
  obtain rfl : c = ')' := by simpa using hlast
  exact absurd hdigit (by decide)

theorem labelsApart (hN : EndsInDigit N) : LabelsApart p (p.compile N) side := by
  constructor
  · intro c hc i
    obtain ⟨before, x, hlabel⟩ := p.compile_label N hc
    rw [hlabel]
    exact ne_sideLabel hN before x i
  · intro f hf i
    obtain ⟨before, x, hlabel⟩ := p.absolute_label N hf
    rw [hlabel]
    exact ne_sideLabel hN before x i

theorem reported_side (hapart : LabelsApart p compiled side) (hi : i ∈ costs.charged) :
    (orthant p compiled side costs scale linear s).reported m (sideLabel p side i) =
      sideMultiplier compiled costs m i := by
  have hlinear : ∀ c ∈ compiled.linear.zipIdx,
      (if c.1.label = sideLabel p side i then m.linear c.2 else 0) = 0 :=
    fun c hc => if_neg (hapart.linear c.1 (List.fst_mem_of_mem_zipIdx hc) i)
  have habsolute : ∀ f ∈ compiled.absolute.zipIdx,
      (if f.1.label = sideLabel p side i then m.absolute f.2 else 0) = 0 :=
    fun f hf => if_neg (hapart.absolute f.1 (List.fst_mem_of_mem_zipIdx hf) i)
  have hlabel : ∀ j, (sideConstraint p side costs s j).label = sideLabel p side i ↔ j = i :=
    fun j => (side.injective.comp p.distinct).eq_iff
  simp only [QuadraticProgram.reported, orthant,
    sum_zipIdx_append_map _ _ costs.charged_nodup, hlabel]
  rw [List.map_congr_left (g := fun _ => 0) hlinear, List.map_congr_left (g := fun _ => 0) habsolute]
  simp only [List.map_const', List.sum_replicate, smul_zero, zero_add, add_zero]
  rw [sum_charged, Finset.sum_ite_eq' Finset.univ i, if_pos (Finset.mem_univ i)]
  · rfl
  · intro j hj
    have hne : j ≠ i := by
      rintro rfl
      exact hj (LinearCosts.mem_charged.mp hi)
    exact if_neg hne

end

section
variable {p : ConstructionProblem n ℝ} {compiled : Compiled n ℝ} {side : SideText}
  {costs : LinearCosts n ℝ} {scale : ℝ} {linear : Fin n → ℝ} {s : Signs n} {x y : Fin n → ℝ}
  {m : Multipliers ℝ} {μ : Fin n → ℝ} {i : Fin n}

theorem SideCertificate.least_on (h : SideCertificate p compiled costs scale linear s x m μ)
    (hs : Sided costs s) (hrates : ∀ i, 0 ≤ costs.rates i) (hy : y ∈ compiled.portfolios)
    (hsides : OnSides costs s y) :
    costedObjective p costs scale linear x ≤ costedObjective p costs scale linear y := by
  refine (h.costed_le hs hrates hy).trans ?_
  simp only [costedObjective]
  refine add_le_add le_rfl (Finset.sum_le_sum ?_)
  intro i _
  rw [rate_mul_abs hs hrates hsides, sub_mul]
  by_cases hi : i ∈ costs.charged
  · linarith [mul_nonneg (h.side_nonneg i hi) (hsides i hi)]
  · have hzero : s i = 0 := by simpa using mt (hs i).mp (mt LinearCosts.mem_charged.mpr hi)
    simp [hzero]

/-- What a side's multiplier leaves of the cost, where it exceeds twice the rate by `τ` at most. -/
theorem SideCertificate.side_term_le
    (h : SideCertificate p compiled costs scale linear s x m μ) (hs : Sided costs s)
    (hrates : ∀ i, 0 ≤ costs.rates i) {τ : ℝ} (hτ : 0 ≤ τ) (hexcess : ∀ i ∈ costs.charged,
      μ i ≤ 2 * costs.rates i + τ * max 1 (2 * costs.rates i)) (y : Fin n → ℝ) (i : Fin n) :
    (costs.rates i - μ i) * (s i * (y i - costs.current i)) ≤
      costs.rates i * |y i - costs.current i| +
        τ * if 0 < costs.rates i then max 1 (2 * costs.rates i) * |y i - costs.current i| else 0 := by
  by_cases hrate : 0 < costs.rates i
  · have hi := LinearCosts.mem_charged.mpr hrate
    have hμ := h.side_nonneg i hi
    have hover := hexcess i hi
    have hsign : |(s i : ℝ)| = 1 := by
      have hne := (hs i).mpr hrate
      rcases hsign : s i with _ | _ | _ <;> simp_all
    have hbound : |costs.rates i - μ i| ≤ costs.rates i + τ * max 1 (2 * costs.rates i) := by
      have hmargin : 0 ≤ τ * max 1 (2 * costs.rates i) :=
        mul_nonneg hτ (le_max_of_le_left zero_le_one)
      exact abs_le.mpr ⟨by linarith, by linarith⟩
    rw [if_pos hrate]
    calc (costs.rates i - μ i) * (s i * (y i - costs.current i))
        ≤ |(costs.rates i - μ i) * (s i * (y i - costs.current i))| := le_abs_self _
      _ = |costs.rates i - μ i| * |y i - costs.current i| := by
        rw [abs_mul, abs_mul, hsign, one_mul]
      _ ≤ (costs.rates i + τ * max 1 (2 * costs.rates i)) * |y i - costs.current i| :=
        mul_le_mul_of_nonneg_right hbound (abs_nonneg _)
      _ = costs.rates i * |y i - costs.current i| +
          τ * (max 1 (2 * costs.rates i) * |y i - costs.current i|) := by ring
  · have hzero : s i = 0 := by simpa using mt (hs i).mp hrate
    rw [if_neg hrate, hzero]
    simpa using mul_nonneg (hrates i) (abs_nonneg _)

theorem cheapest_unique (hC : p.covariance.PosDef) (hscale : 0 < scale) (hs : Sided costs s)
    (hrates : ∀ i, 0 ≤ costs.rates i) (hx : x ∈ compiled.portfolios ∧ OnSides costs s x)
    (hy : y ∈ compiled.portfolios ∧ OnSides costs s y)
    (hxleast : ∀ z ∈ compiled.portfolios, OnSides costs s z →
      costedObjective p costs scale linear x ≤ costedObjective p costs scale linear z)
    (hyx : costedObjective p costs scale linear y ≤ costedObjective p costs scale linear x) :
    x = y := by
  let q := orthant p compiled noTrade costs scale linear s
  have hconvex : StrictConvexOn ℝ (feasible q.constraints q.absoluteSums) q.objective :=
    (strictConvexOn_value (hC.smul hscale) _).subset (Set.subset_univ _) (convex_feasible _ _)
  have hcosted (z : Fin n → ℝ) (hz : OnSides costs s z) :
      q.objective z = costedObjective p costs scale linear z + offset costs s := by
    rw [costed_eq hs hrates hz, orthant_objective]
    ring
  have hleast : IsMinOn q.objective (feasible q.constraints q.absoluteSums) x := by
    refine isMinOn_iff.mpr fun z hz => ?_
    obtain ⟨hmem, hside⟩ := mem_orthant.mp hz
    rw [hcosted x hx.2, hcosted z hside]
    linarith [hxleast z hmem hside]
  have hleast' : IsMinOn q.objective (feasible q.constraints q.absoluteSums) y := by
    refine isMinOn_iff.mpr fun z hz => ?_
    obtain ⟨hmem, hside⟩ := mem_orthant.mp hz
    rw [hcosted y hy.2, hcosted z hside]
    linarith [hxleast z hmem hside]
  exact hconvex.eq_of_isMinOn hleast hleast' (mem_orthant.mpr hx) (mem_orthant.mpr hy)

end

/-! ## The walk -/

def UniqueMultipliers (q : QuadraticProgram n ℝ) : Prop :=
  ∀ x m m', KuhnTucker q x m → KuhnTucker q x m' → ∀ label, q.reported m label = q.reported m' label

section
variable (p : ConstructionProblem n ℝ) (compiled : Compiled n ℝ) (side : SideText)
  (costs : LinearCosts n ℝ) (scale : ℝ) (linear : Fin n → ℝ)

def Visit.Certified (v : Visit n ℝ) : Prop :=
  Sided costs v.signs ∧ ∃ m μ, SideCertificate p compiled costs scale linear v.signs v.weights m μ

/-- No orthant is solved twice, no value is above one before it, and the orthant at hand holds a
portfolio that is no worse than the lowest. -/
structure Walk.Sound (w : Walk n ℝ) : Prop where
  sided : Sided costs w.signs
  fresh : (w.visited.map Visit.signs ++ [w.signs]).Nodup
  shared : ∃ x ∈ compiled.portfolios, OnSides costs w.signs x ∧
    ∀ l ∈ w.lowest, costedObjective p costs scale linear x ≤ l
  certified : ∀ v ∈ w.visited, v.Certified p compiled costs scale linear
  lowest : ∀ v ∈ w.visited, ∃ l ∈ w.lowest, l ≤ costedObjective p costs scale linear v.weights
  descending : w.visited.Pairwise fun v v' =>
    costedObjective p costs scale linear v'.weights ≤ costedObjective p costs scale linear v.weights

structure Walk.Done (w : Walk n ℝ) (o : Outcome n ℝ) : Prop where
  fresh : (w.visited.map Visit.signs).Nodup
  certified : ∀ v ∈ w.visited, v.Certified p compiled costs scale linear
  descending : w.visited.Pairwise fun v v' =>
    costedObjective p costs scale linear v'.weights ≤ costedObjective p costs scale linear v.weights
  feasible : o.status ≠ .infeasible
  optimal : o.status = .optimal → ∃ s x m μ, o.weights = some x ∧ Sided costs s ∧
    SideCertificate p compiled costs scale linear s x m μ ∧ ∀ i ∈ costs.charged,
      μ i ≤ 2 * costs.rates i + p.settings.convergenceTolerance * max 1 (2 * costs.rates i)
  certain : (∀ v ∈ w.visited,
    UniqueMultipliers (orthant p compiled side costs scale linear v.signs)) →
      o.status ≠ .numericalFailure

structure ExactOrthants (solve : Solver n ℝ) : Prop where
  definite : p.covariance.PosDef
  scale_pos : 0 < scale
  rates_nonneg : ∀ i, 0 ≤ costs.rates i
  tolerance_nonneg : 0 ≤ p.settings.convergenceTolerance
  apart : LabelsApart p compiled side
  answers : ∀ s, Sided costs s → ∀ k,
    (solve (orthant p compiled side costs scale linear s) k).Answers
      (orthant p compiled side costs scale linear s)

end

section
variable {p : ConstructionProblem n ℝ} {compiled : Compiled n ℝ} {side : SideText}
  {costs : LinearCosts n ℝ} {scale : ℝ} {linear : Fin n → ℝ} {solve : Solver n ℝ}
  {w : Walk n ℝ} {x : Fin n → ℝ} {m : Multipliers ℝ} {i : Fin n} {q : QuadraticSolution n ℝ}

theorem flip_ne (hs : Sided costs w.signs) (hi : i ∈ costs.charged) : flip w.signs i ≠ w.signs := by
  intro h
  have hat := congrFun h i
  simp only [flip, Function.update_self] at hat
  have hne := (hs i).mpr (LinearCosts.mem_charged.mp hi)
  rcases hsign : w.signs i with _ | _ | _ <;> simp_all

theorem mem_excesses : i ∈ excesses p side costs q ↔ i ∈ costs.charged ∧
    p.settings.convergenceTolerance * max 1 (2 * costs.rates i) < excessAt p side costs q i := by
  simp [excesses]

theorem current_of_excess
    (h : SideCertificate p compiled costs scale linear w.signs x m (sideMultiplier compiled costs m))
    (hs : Sided costs w.signs) (hi : i ∈ costs.charged)
    (hexcess : 2 * costs.rates i < sideMultiplier compiled costs m i) : x i = costs.current i := by
  have hne := (hs i).mpr (LinearCosts.mem_charged.mp hi)
  have hrate := LinearCosts.mem_charged.mp hi
  have hcast : (w.signs i : ℝ) ≠ 0 := by rcases hsign : w.signs i with _ | _ | _ <;> simp_all
  have hslack := (mul_eq_zero.mp (h.side_slack i hi)).resolve_left (by linarith)
  exact sub_eq_zero.mp ((mul_eq_zero.mp hslack).resolve_left hcast)

theorem onSides_flip (hsides : OnSides costs w.signs x) (hcurrent : x i = costs.current i) :
    OnSides costs (flip w.signs i) x := by
  intro j hj
  rcases eq_or_ne j i with rfl | hne
  · rw [hcurrent, sub_self, mul_zero]
  · simpa only [flip, Function.update_of_ne hne] using hsides j hj

/-- Where the multipliers are unique, a side that it pays to cross leads to an orthant not solved
before. -/
theorem fresh_of_unique (he : ExactOrthants p compiled side costs scale linear solve)
    (hw : w.Sound p compiled costs scale linear)
    (hcertified : KuhnTucker (orthant p compiled side costs scale linear w.signs) x m)
    (hlow : ∀ l ∈ w.lowest, costedObjective p costs scale linear x ≤ l)
    (hunique : UniqueMultipliers (orthant p compiled side costs scale linear w.signs))
    (hi : i ∈ costs.charged) (hexcess : 2 * costs.rates i < sideMultiplier compiled costs m i) :
    flip w.signs i ∉ w.visited.map Visit.signs := by
  intro hvisited
  obtain ⟨v, hv, hsigns⟩ := List.mem_map.mp hvisited
  have hx := sideCertificate hw.sided hcertified
  have hcurrent := current_of_excess hx hw.sided hi hexcess
  have hflipped : OnSides costs (flip w.signs i) x := onSides_flip hx.sides hcurrent
  obtain ⟨hsided, m', μ', hv'⟩ := hw.certified v hv
  obtain ⟨l, hl, hlv⟩ := hw.lowest v hv
  rw [hsigns] at hsided hv'
  -- the orthant across was solved at no lower value, so its optimum is this very point
  have hsame : v.weights = x := by
    refine cheapest_unique he.definite he.scale_pos hsided he.rates_nonneg ⟨hv'.mem, hv'.sides⟩
      ⟨hx.mem, hflipped⟩ (fun z hz hz' => hv'.least_on hsided he.rates_nonneg hz hz') ?_
    exact (hlow l hl).trans hlv
  rw [hsame] at hv'
  obtain ⟨m'', μ'', hmoved, hat⟩ := hx.cross hv' hw.sided hi hexcess
  have hreports := hunique x _ _ hcertified (hmoved.kuhnTucker side hw.sided)
    (sideLabel p side i)
  rw [reported_side he.apart hi, reported_side he.apart hi,
    SideCertificate.sideMultiplier_multipliers hi, hat] at hreports
  linarith

theorem solvedAt_sound (hw : w.Sound p compiled costs scale linear)
    (hx : SideCertificate p compiled costs scale linear w.signs x m (sideMultiplier compiled costs m))
    (hlow : ∀ l ∈ w.lowest, costedObjective p costs scale linear x ≤ l) (used : ℕ) :
    let w' := w.solvedAt x (costedObjective p costs scale linear x) used
    (w'.visited.map Visit.signs).Nodup ∧
      (∀ v ∈ w'.visited, v.Certified p compiled costs scale linear) ∧
      w'.lowest = some (costedObjective p costs scale linear x) ∧
      w'.visited.Pairwise fun v v' => costedObjective p costs scale linear v'.weights ≤
        costedObjective p costs scale linear v.weights := by
  have habove : ∀ v ∈ w.visited, costedObjective p costs scale linear x ≤
      costedObjective p costs scale linear v.weights := by
    intro v hv
    obtain ⟨l, hl, hlv⟩ := hw.lowest v hv
    exact (hlow l hl).trans hlv
  refine ⟨by simpa [Walk.solvedAt] using hw.fresh, ?_, ?_, ?_⟩
  · simp only [Walk.solvedAt, List.forall_mem_append, List.forall_mem_singleton]
    exact ⟨hw.certified, hw.sided, m, _, hx⟩
  · simp only [Walk.solvedAt]
    cases hl : w.lowest with
    | none => rfl
    | some l => exact congrArg some (min_eq_right (hlow l (by simp [hl])))
  · refine List.pairwise_append.mpr ⟨hw.descending, List.pairwise_singleton _ _, ?_⟩
    simpa only [List.forall_mem_singleton] using habove

/-- An orthant whose sides it does not pay to cross ends the walk. -/
theorem orthantStep_content
    (hsolved : (fromSolution (solve (orthant p compiled side costs scale linear w.signs) w.used)
      w.used).solved = some x)
    (hrose : ¬Rose p w.lowest (costedObjective p costs scale linear x))
    (hnone : excesses p side costs
      (solve (orthant p compiled side costs scale linear w.signs) w.used) = []) :
    orthantStep p compiled side costs scale linear solve w =
      (w.solvedAt x (costedObjective p costs scale linear x)
        (fromSolution (solve (orthant p compiled side costs scale linear w.signs) w.used)
          w.used).iterations,
        some (fromSolution (solve (orthant p compiled side costs scale linear w.signs) w.used)
          w.used)) := by
  simp only [orthantStep, hsolved, if_neg hrose, if_pos hnone]

/-- **One orthant.**  The walk ends as it should, or is sound in a new orthant. -/
theorem orthantStep_sound (he : ExactOrthants p compiled side costs scale linear solve)
    (hw : w.Sound p compiled costs scale linear) :
    match orthantStep p compiled side costs scale linear solve w with
    | (w', some o) => w'.Done p compiled side costs scale linear o
    | (w', none) => w'.Sound p compiled costs scale linear ∧
        w'.visited.length = w.visited.length + 1 := by
  obtain ⟨x₀, hmem₀, hsides₀, hlow₀⟩ := hw.shared
  cases he.answers w.signs hw.sided w.used with
  | infeasible _ _ hempty =>
    exact absurd (hempty ▸ mem_orthant.mpr ⟨hmem₀, hsides₀⟩) (Set.notMem_empty x₀)
  | optimal x m status point certified reports =>
    have hx := sideCertificate hw.sided certified
    have hlow : ∀ l ∈ w.lowest, costedObjective p costs scale linear x ≤ l :=
      fun l hl => (hx.least_on hw.sided he.rates_nonneg hmem₀ hsides₀).trans (hlow₀ l hl)
    have hsolved : (fromSolution (solve (orthant p compiled side costs scale linear w.signs) w.used)
        w.used).solved = some x := by
      simp [Outcome.solved, fromSolution, status, point, ConstructionStatus.ofSolve]
    have hexcess : ∀ j ∈ costs.charged, excessAt p side costs
        (solve (orthant p compiled side costs scale linear w.signs) w.used) j =
          sideMultiplier compiled costs m j - 2 * costs.rates j := by
      intro j hj
      rw [excessAt, reports, reported_side he.apart hj]
    have hrose : ¬Rose p w.lowest (costedObjective p costs scale linear x) := by
      rintro ⟨l, hl, hlt⟩
      have htol : 0 ≤ p.settings.convergenceTolerance * max 1 |l| :=
        mul_nonneg he.tolerance_nonneg (le_max_of_le_left zero_le_one)
      linarith [hlow l hl]
    generalize hused : (fromSolution (solve (orthant p compiled side costs scale linear w.signs)
      w.used) w.used).iterations = used
    obtain ⟨hfresh, hvisited, hlowest, hdescending⟩ := solvedAt_sound hw hx hlow used
    simp only [orthantStep, hsolved, if_neg hrose, hused]
    by_cases hnone : excesses p side costs
        (solve (orthant p compiled side costs scale linear w.signs) w.used) = []
    · -- no side that it pays to cross
      simp only [if_pos hnone]
      refine ⟨hfresh, hvisited, hdescending, ?_, ?_, ?_⟩
      · simp [fromSolution, status, ConstructionStatus.ofSolve]
      · intro _
        refine ⟨w.signs, x, m, _, point, hw.sided, hx, ?_⟩
        intro i hi
        have hnot : i ∉ excesses p side costs
            (solve (orthant p compiled side costs scale linear w.signs) w.used) := by simp [hnone]
        rw [mem_excesses, hexcess i hi] at hnot
        have hle := not_lt.mp fun h => hnot ⟨hi, h⟩
        linarith
      · simp [fromSolution, status, ConstructionStatus.ofSolve]
    simp only [if_neg hnone]
    have hpays : ∀ i ∈ excesses p side costs
        (solve (orthant p compiled side costs scale linear w.signs) w.used),
        i ∈ costs.charged ∧ 2 * costs.rates i < sideMultiplier compiled costs m i := by
      intro i hi
      obtain ⟨hcharged, hover⟩ := mem_excesses.mp hi
      rw [hexcess i hcharged] at hover
      have htol : 0 ≤ p.settings.convergenceTolerance * max 1 (2 * costs.rates i) :=
        mul_nonneg he.tolerance_nonneg (le_max_of_le_left zero_le_one)
      exact ⟨hcharged, by linarith⟩
    cases hfind : (excesses p side costs (solve
        (orthant p compiled side costs scale linear w.signs) w.used)).find? fun i =>
          flip w.signs i ∉ (w.solvedAt x (costedObjective p costs scale linear x) used).visited.map
            Visit.signs with
    | none =>
      -- every such side leads back; its multipliers are then not unique
      refine ⟨hfresh, hvisited, hdescending, by simp [uncertified], by simp [uncertified], ?_⟩
      intro hunique
      obtain ⟨i, hi⟩ := List.exists_mem_of_ne_nil _ hnone
      obtain ⟨hcharged, hover⟩ := hpays i hi
      have hback := List.find?_eq_none.mp hfind i hi
      simp only [Walk.solvedAt, decide_eq_true_eq, not_not, List.map_append, List.map_cons,
        List.map_nil, List.mem_append, List.mem_singleton, flip_ne hw.sided hcharged,
        or_false] at hback
      exact absurd hback (fresh_of_unique he hw certified hlow
        (hunique ⟨w.signs, x⟩ (by simp [Walk.solvedAt])) hcharged hover)
    | some i =>
      by_cases hbudget : p.settings.maxIterations ≤ used
      · simp only [if_pos hbudget]
        exact ⟨hfresh, hvisited, hdescending, by simp [Outcome.outOfSteps],
          by simp [Outcome.outOfSteps], by simp [Outcome.outOfSteps]⟩
      simp only [if_neg hbudget]
      obtain ⟨hcharged, hover⟩ := hpays i (List.mem_of_find?_eq_some hfind)
      have hnew := List.find?_some hfind
      rw [decide_eq_true_eq] at hnew
      refine ⟨⟨hw.sided.flip i, ?_, ⟨x, hx.mem,
        onSides_flip hx.sides (current_of_excess hx hw.sided hcharged hover), ?_⟩, hvisited, ?_,
        hdescending⟩, by simp [Walk.solvedAt]⟩
      · refine List.nodup_append.mpr ⟨hfresh, List.nodup_singleton _, ?_⟩
        rintro a ha b hb rfl
        rw [List.mem_singleton.mp hb] at ha
        exact hnew ha
      · intro l hl
        rw [hlowest] at hl
        exact (Option.mem_some_iff.mp hl).le
      · intro v hv
        refine ⟨_, hlowest, ?_⟩
        rcases List.mem_append.mp hv with hold | hat
        · obtain ⟨l, hl, hlv⟩ := hw.lowest v hold
          exact (hlow l hl).trans hlv
        · rw [List.mem_singleton.mp hat]

/-- **A run of orthants.**  No orthant is solved twice, so the loop ends. -/
theorem orthantLoop_done (he : ExactOrthants p compiled side costs scale linear solve) {fuel : ℕ} :
    ∀ {w : Walk n ℝ}, w.Sound p compiled costs scale linear →
      Fintype.card (Signs n) ≤ fuel + w.visited.length →
      ∃ w' o, orthantLoop p compiled side costs scale linear solve fuel w = some (w', o) ∧
        w'.Done p compiled side costs scale linear o := by
  induction fuel with
  | zero =>
    intro w hw hfuel
    have hlength := hw.fresh.length_le_card
    simp only [List.length_append, List.length_map, List.length_singleton] at hlength
    omega
  | succ fuel ih =>
    intro w hw hfuel
    have hstep := orthantStep_sound he hw
    rw [orthantLoop]
    rcases hresult : orthantStep p compiled side costs scale linear solve w with ⟨w', _ | o⟩
    · rw [hresult] at hstep
      exact ih hstep.1 (by omega)
    · rw [hresult] at hstep
      exact ⟨w', o, rfl, hstep⟩

theorem start_sound {weights : Fin n → ℝ} (hmem : weights ∈ compiled.portfolios) (used : ℕ) :
    Walk.Sound p compiled costs scale linear ⟨startSigns costs weights, [], none, used⟩ := by
  refine ⟨sided_startSigns weights, List.nodup_singleton _, ⟨weights, hmem, ?_, by simp⟩, by simp,
    by simp, List.Pairwise.nil⟩
  intro i hi
  have hrate := LinearCosts.mem_charged.mp hi
  simp only [startSigns, if_pos hrate]
  split_ifs with hside
  · simpa using hside
  · simpa using (not_le.mp hside).le

end

/-- **The costed optimum.**  The walk ends and solves no orthant twice; the costed objective never
rises along it; an optimal outcome is least among all portfolios, but for the convergence tolerance
on every unit of weight by which they trade more; there is no portfolio iff the outcome is
infeasible; and where multipliers are unique the answer is certified. -/
theorem costed_optimum_by_orthants {N : Arithmetic ℝ} (hN : EndsInDigit N)
    (p : ConstructionProblem n ℝ) (hC : p.covariance.PosDef) (side : SideText)
    (costs : LinearCosts n ℝ) (hrates : ∀ i, 0 ≤ costs.rates i) (scale : ℝ) (hscale : 0 < scale)
    (linear : Fin n → ℝ) (htolerance : 0 ≤ p.settings.convergenceTolerance) (solve : Solver n ℝ)
    (hbase : ∀ k, (solve (p.program (p.compile N) scale linear) k).Answers
      (p.program (p.compile N) scale linear))
    (horthants : ∀ s, Sided costs s → ∀ k,
      (solve (orthant p (p.compile N) side costs scale linear s) k).Answers
        (orthant p (p.compile N) side costs scale linear s)) (k : ℕ) :
    let portfolios := (p.compile N).portfolios
    let costed := costedObjective p costs scale linear
    ∃ w o, qpWithCosts p (p.compile N) side costs scale linear solve k = some (w, o) ∧
      (w.visited.map Visit.signs).Nodup ∧
      (∀ v ∈ w.visited, v.weights ∈ portfolios ∧ OnSides costs v.signs v.weights ∧
        ∀ y ∈ portfolios, OnSides costs v.signs y → costed v.weights ≤ costed y) ∧
      (w.visited.Pairwise fun v v' => costed v'.weights ≤ costed v.weights) ∧
      (o.status = .optimal → ∃ x, o.weights = some x ∧ x ∈ portfolios ∧
        ∀ y ∈ portfolios, costed x ≤ costed y + p.settings.convergenceTolerance *
          ∑ i with 0 < costs.rates i, max 1 (2 * costs.rates i) * |y i - costs.current i|) ∧
      (o.status = .infeasible ↔ portfolios = ∅) ∧
      ((∀ v ∈ w.visited,
          UniqueMultipliers (orthant p (p.compile N) side costs scale linear v.signs)) →
        o.status ≠ .numericalFailure) := by
  intro portfolios costed
  have he : ExactOrthants p (p.compile N) side costs scale linear solve :=
    ⟨hC, hscale, hrates, htolerance, labelsApart hN, horthants⟩
  have hfirst := qp_leastOver (hbase k)
  simp only [qpWithCosts]
  cases hsolved : (qp solve p (p.compile N) scale linear k).solved with
  | none =>
    obtain ⟨hstatus, hempty⟩ := hfirst.of_unsolved hsolved
    refine ⟨_, _, rfl, by simp, by simp, by simp, ?_, ⟨fun _ => hempty, fun _ => hstatus⟩, ?_⟩
    · simp [hstatus]
    · simp [hstatus]
  | some weights =>
    obtain ⟨hstatus, hmem, hleast⟩ := hfirst.of_solved hsolved
    have hnonempty : portfolios ≠ ∅ := Set.Nonempty.ne_empty ⟨weights, hmem⟩
    by_cases hcharged : costs.charged = []
    · -- with nothing charged the base program is the problem
      have hzero : ∀ i, costs.rates i = 0 := fun i => le_antisymm
        (not_lt.mp fun h => by simpa [hcharged] using LinearCosts.mem_charged.mpr h) (hrates i)
      have hcosted : costed = Tradeoffs.weighed (form p.covariance)
          (fun w => ∑ i, linear i * w i) scale := by
        funext y
        simp only [costed, costedObjective, hzero, zero_mul, Finset.sum_const_zero, add_zero, value,
          form_scale, Tradeoffs.weighed, dotProduct]
        ring
      simp only [if_pos hcharged]
      refine ⟨_, _, rfl, by simp, by simp, by simp, fun _ => ⟨weights,
        hfirst.solved_iff.mp hsolved, hmem, fun y hy => ?_⟩, ⟨by simp [hstatus],
          fun h => absurd h hnonempty⟩, by simp [hstatus]⟩
      rw [hcosted]
      simpa [hzero] using isMinOn_iff.mp hleast y hy
    simp only [if_neg hcharged]
    obtain ⟨w, o, hloop, hdone⟩ := orthantLoop_done he
      (start_sound hmem (qp solve p (p.compile N) scale linear k).iterations)
      (Nat.le_add_right (Fintype.card (Signs n)) _)
    refine ⟨w, o, hloop, hdone.fresh, ?_, hdone.descending, ?_,
      ⟨fun h => absurd h hdone.feasible, fun h => absurd h hnonempty⟩, hdone.certain⟩
    · intro v hv
      obtain ⟨hsided, m, μ, hcert⟩ := hdone.certified v hv
      exact ⟨hcert.mem, hcert.sides, fun y hy hside => hcert.least_on hsided hrates hy hside⟩
    · intro hoptimal
      obtain ⟨s, x, m, μ, hx, hsided, hcert, hexcess⟩ := hdone.optimal hoptimal
      refine ⟨x, hx, hcert.mem, fun y hy => (hcert.costed_le hsided hrates hy).trans ?_⟩
      simp only [costed, costedObjective, add_assoc]
      refine add_le_add le_rfl ?_
      rw [Finset.sum_filter, Finset.mul_sum, ← Finset.sum_add_distrib]
      refine Finset.sum_le_sum ?_
      intro i _
      exact hcert.side_term_le hsided hrates htolerance hexcess y i

/-! ## Two assets -/

/-- Two assets that move against each other, without constraints; half a unit of a multiplier counts
as nothing. -/
noncomputable def twoAssets : ConstructionProblem 2 ℝ where
  universe_ := !["A", "B"]
  distinct := two_labels
  covariance := !![1, -1 / 2; -1 / 2, 1]
  constraints := ⟨⟨none, none⟩, ⟨none, none, .empty⟩, none, none, [], [], none, none, none⟩
  settings := ⟨1 / 2, 1 / 2, 100⟩

noncomputable def tradingCosts : LinearCosts 2 ℝ := ⟨0, ![1 / 8, 1]⟩

noncomputable def twoReturns : Fin 2 → ℝ := ![1, -2]

/-- The optimum of each orthant, told by its linear term, with the multipliers of its sides. -/
noncomputable def cornerOf (linear : Fin 2 → ℝ) : (Fin 2 → ℝ) × (Fin 2 → ℝ) :=
  if linear 0 = 1 then (![0, 2], 0)
  else if linear 1 = -1 then
    if linear 0 = 9 / 8 then (![0, 1], ![5 / 8, 0]) else (![-1 / 2, 3 / 4], 0)
  else if linear 0 = 9 / 8 then (0, ![9 / 8, 3]) else (![-7 / 8, 0], ![0, 41 / 16])

noncomputable def cornerSolution (x μ : Fin 2 → ℝ) : QuadraticSolution 2 ℝ :=
  ⟨.optimal, some x, none, 1, [], .ofList [(sideLabel twoAssets noTrade 0, μ 0),
    (sideLabel twoAssets noTrade 1, μ 1)], [], 0, 0, 1⟩

noncomputable def corners : Solver 2 ℝ := fun q _ =>
  cornerSolution (cornerOf q.linear).1 (cornerOf q.linear).2

noncomputable def plain : Arithmetic ℝ := exactly fun _ => "0"

theorem endsInDigit_plain : EndsInDigit plain := by
  intro x
  exact ⟨'0', (by decide : "0".toList.getLast? = some '0'), by decide⟩

theorem compile_twoAssets : twoAssets.compile plain = ⟨[], [], []⟩ := by
  simp [ConstructionProblem.compile, ConstructionProblem.netRows, ConstructionProblem.weightRows,
    ConstructionProblem.concentrationRows, ConstructionProblem.notionalRows,
    ConstructionProblem.groupRows, ConstructionProblem.factorRows, ConstructionProblem.absoluteLimits,
    ConstructionProblem.unmet, ConstructionProblem.assetInterval, interval, twoAssets,
    WeightBounds.forAsset]

theorem posDef_twoAssets : twoAssets.covariance.PosDef := by
  refine Matrix.PosDef.of_dotProduct_mulVec_pos ?_ ?_
  · ext i j
    fin_cases i <;> fin_cases j <;> simp [twoAssets]
  · intro x hx
    have hform : star x ⬝ᵥ twoAssets.covariance *ᵥ x = (x 0 - x 1 / 2) ^ 2 + 3 / 4 * x 1 ^ 2 := by
      simp [twoAssets, dotProduct, Matrix.mulVec, Fin.sum_univ_two]
      ring
    rw [hform]
    rcases eq_or_ne (x 1) 0 with h1 | h1
    · have h0 : x 0 ≠ 0 := by
        intro h0
        refine hx (funext fun i => ?_)
        fin_cases i <;> simpa
      rw [h1]
      have := sq_pos_of_ne_zero h0
      nlinarith
    · have := sq_pos_of_ne_zero h1
      nlinarith [sq_nonneg (x 0 - x 1 / 2)]

/-- Without constraints a point is least where the gradient is balanced by the sides. -/
theorem SideCertificate.of_balanced {p : ConstructionProblem n ℝ} (hC : p.covariance.PosDef)
    {costs : LinearCosts n ℝ} {linear : Fin n → ℝ} {s : Signs n} {x μ : Fin n → ℝ}
    (hsides : OnSides costs s x) (hμ : ∀ i, 0 ≤ μ i)
    (hslack : ∀ i, μ i * (s i * (x i - costs.current i)) = 0)
    (hbalanced : ∀ i, gradient p.covariance linear x i + (costs.rates i - μ i) * s i = 0) :
    SideCertificate p ⟨[], [], []⟩ costs 1 linear s x ⟨0, 0⟩ μ := by
  refine ⟨by simp [Compiled.portfolios, feasible], hsides, by simp, by simp, by simp, by simp,
    fun i _ => hμ i, fun i _ => hslack i, fun y => ?_⟩
  have hvalue := value_add (isSymm hC) linear x (y - x)
  rw [add_sub_cancel] at hvalue
  have hforms := form_nonneg hC (y - x)
  have hsums : ∑ i, (costs.rates i * s i * y i - μ i * (s i * (y i - costs.current i))) -
      ∑ i, (costs.rates i * s i * x i - μ i * (s i * (x i - costs.current i))) =
        -(gradient p.covariance linear x ⬝ᵥ (y - x)) := by
    rw [← Finset.sum_sub_distrib, dotProduct, ← Finset.sum_neg_distrib]
    refine Finset.sum_congr rfl fun i _ => ?_
    have h := hbalanced i
    simp only [Pi.sub_apply]
    linear_combination (y i - x i) * h
  simp only [pricedValue, QuadraticProgram.lagrangian, ConstructionProblem.program,
    QuadraticProgram.objective, one_smul, List.zipIdx_nil, List.map_nil, List.sum_nil, sub_zero,
    add_zero]
  linarith

theorem charged_tradingCosts (i : Fin 2) : i ∈ tradingCosts.charged := by
  rw [LinearCosts.mem_charged]
  fin_cases i <;> simp [tradingCosts]

theorem multiplier_cornerSolution (x μ : Fin 2 → ℝ) (i : Fin 2) :
    ((cornerSolution x μ).multipliers.get? (sideLabel twoAssets noTrade i)).getD 0 = μ i := by
  have hlabels : sideLabel twoAssets noTrade 0 ≠ sideLabel twoAssets noTrade 1 :=
    fun h => absurd (noTrade.injective h) (by simp [twoAssets])
  fin_cases i <;> simp [cornerSolution, Dict.ofList, Dict.get?_set, hlabels]

theorem cornerSolution_answers {s : Signs 2} (hs : Sided tradingCosts s) {x μ : Fin 2 → ℝ}
    (h : SideCertificate twoAssets ⟨[], [], []⟩ tradingCosts 1 twoReturns s x ⟨0, 0⟩ μ) :
    (cornerSolution x μ).Answers
      (orthant twoAssets ⟨[], [], []⟩ noTrade tradingCosts 1 twoReturns s) := by
  have hlabels : sideLabel twoAssets noTrade 0 ≠ sideLabel twoAssets noTrade 1 :=
    fun h => absurd (noTrade.injective h) (by simp [twoAssets])
  refine .optimal x _ rfl rfl (h.kuhnTucker noTrade hs) fun label => ?_
  simp only [QuadraticProgram.reported, orthant, sum_zipIdx_append_map _ _ tradingCosts.charged_nodup]
  simp only [List.zipIdx_nil, List.map_nil, List.sum_nil, zero_add, add_zero]
  rw [sum_charged fun i hi => absurd (LinearCosts.mem_charged.mp (charged_tradingCosts i)) hi,
    Fin.sum_univ_two]
  change ((Dict.ofList _).get? label).getD 0 =
    (if sideLabel twoAssets noTrade 0 = label then
      sideMultiplier ⟨[], [], []⟩ tradingCosts (SideCertificate.multipliers _ _ _ μ) 0 else 0) +
    if sideLabel twoAssets noTrade 1 = label then
      sideMultiplier ⟨[], [], []⟩ tradingCosts (SideCertificate.multipliers _ _ _ μ) 1 else 0
  rw [SideCertificate.sideMultiplier_multipliers (charged_tradingCosts 0),
    SideCertificate.sideMultiplier_multipliers (charged_tradingCosts 1)]
  simp only [Dict.ofList, List.foldl_cons, List.foldl_nil, Dict.get?_set, Dict.get?_empty]
  by_cases h1 : sideLabel twoAssets noTrade 1 = label
  · simp [← h1, hlabels]
  · by_cases h0 : sideLabel twoAssets noTrade 0 = label
    · simp [← h0, hlabels, hlabels.symm]
    · simp [Ne.symm h0, Ne.symm h1, h0, h1]

theorem corners_answer {s : Signs 2} (hs : Sided tradingCosts s) {a b : ℝ} (ha : (s 0 : ℝ) = a)
    (hb : (s 1 : ℝ) = b) {x μ : Fin 2 → ℝ} (hcorner : cornerOf ![1 + 1 / 8 * a, -2 + b] = (x, μ))
    (hsides : 0 ≤ a * x 0 ∧ 0 ≤ b * x 1) (hμ : 0 ≤ μ 0 ∧ 0 ≤ μ 1)
    (hslack : μ 0 * (a * x 0) = 0 ∧ μ 1 * (b * x 1) = 0)
    (hbalanced : x 0 - 1 / 2 * x 1 + 1 + (1 / 8 - μ 0) * a = 0 ∧
      -1 / 2 * x 0 + x 1 - 2 + (1 - μ 1) * b = 0) (k : ℕ) :
    (corners (orthant twoAssets ⟨[], [], []⟩ noTrade tradingCosts 1 twoReturns s) k).Answers
      (orthant twoAssets ⟨[], [], []⟩ noTrade tradingCosts 1 twoReturns s) := by
  have hlinear : (orthant twoAssets ⟨[], [], []⟩ noTrade tradingCosts 1 twoReturns s).linear =
      ![1 + 1 / 8 * a, -2 + b] := by
    funext i
    fin_cases i <;> simp [orthant, twoReturns, tradingCosts, ha, hb]
  rw [corners, hlinear, hcorner]
  refine cornerSolution_answers hs (.of_balanced posDef_twoAssets ?_ ?_ ?_ ?_)
  · intro i _
    fin_cases i
    · simpa [tradingCosts, ha] using hsides.1
    · simpa [tradingCosts, hb] using hsides.2
  · exact Fin.forall_fin_two.mpr hμ
  · refine Fin.forall_fin_two.mpr ⟨?_, ?_⟩
    · simpa only [tradingCosts, ha, Pi.zero_apply, sub_zero] using hslack.1
    · simpa only [tradingCosts, hb, Pi.zero_apply, sub_zero] using hslack.2
  · refine Fin.forall_fin_two.mpr ⟨?_, ?_⟩
    · simp [QuadraticForms.gradient, twoAssets, twoReturns, tradingCosts, ha, dotProduct,
        Fin.sum_univ_two]
      linarith [hbalanced.1]
    · simp [QuadraticForms.gradient, twoAssets, twoReturns, tradingCosts, hb, dotProduct,
        Fin.sum_univ_two]
      linarith [hbalanced.2]

theorem corners_orthants (s : Signs 2) (hs : Sided tradingCosts s) (k : ℕ) :
    (corners (orthant twoAssets ⟨[], [], []⟩ noTrade tradingCosts 1 twoReturns s) k).Answers
      (orthant twoAssets ⟨[], [], []⟩ noTrade tradingCosts 1 twoReturns s) := by
  have hne (i : Fin 2) : s i ≠ 0 := (hs i).mpr (LinearCosts.mem_charged.mp (charged_tradingCosts i))
  rcases h0 : s 0 with _ | _ | _
  · exact absurd h0 (hne 0)
  · rcases h1 : s 1 with _ | _ | _
    · exact absurd h1 (hne 1)
    · exact corners_answer (x := ![-7 / 8, 0]) (μ := ![0, 41 / 16]) (a := -1) (b := -1) hs (by simp [h0])
        (by simp [h1]) (by norm_num [cornerOf]) (by norm_num) (by norm_num) (by norm_num)
        (by norm_num) k
    · exact corners_answer (x := ![-1 / 2, 3 / 4]) (μ := 0) (a := -1) (b := 1) hs (by simp [h0])
        (by simp [h1]) (by norm_num [cornerOf]) (by norm_num) (by norm_num) (by norm_num)
        (by norm_num) k
  · rcases h1 : s 1 with _ | _ | _
    · exact absurd h1 (hne 1)
    · exact corners_answer (x := 0) (μ := ![9 / 8, 3]) (a := 1) (b := -1) hs (by simp [h0])
        (by simp [h1]) (by norm_num [cornerOf]) (by norm_num) (by norm_num) (by norm_num)
        (by norm_num) k
    · exact corners_answer (x := ![0, 1]) (μ := ![5 / 8, 0]) (a := 1) (b := 1) hs (by simp [h0])
        (by simp [h1]) (by norm_num [cornerOf]) (by norm_num) (by norm_num) (by norm_num)
        (by norm_num) k

theorem corners_base (k : ℕ) :
    (corners (twoAssets.program ⟨[], [], []⟩ 1 twoReturns) k).Answers
      (twoAssets.program ⟨[], [], []⟩ 1 twoReturns) := by
  have hcorner : cornerOf twoReturns = (![0, 2], 0) := by simp [cornerOf, twoReturns]
  have hgradient : QuadraticForms.gradient twoAssets.covariance twoReturns ![0, 2] = 0 := by
    rw [QuadraticForms.gradient]
    funext i
    fin_cases i <;> norm_num [twoAssets, twoReturns]
  refine .optimal ![0, 2] ⟨0, 0⟩ rfl ?_ ⟨?_, ?_, ?_, ?_, ?_, fun y => ?_⟩ fun label => ?_
  · exact congrArg (fun c : (Fin 2 → ℝ) × (Fin 2 → ℝ) => some c.1) hcorner
  · simp [QuadraticProgram.Meets, feasible, ConstructionProblem.program]
  · simp [ConstructionProblem.program]
  · simp [ConstructionProblem.program]
  · simp [ConstructionProblem.program]
  · simp [ConstructionProblem.program]
  · have hvalue := value_add (isSymm posDef_twoAssets) twoReturns ![0, 2] (y - ![0, 2])
    rw [add_sub_cancel, hgradient, zero_dotProduct] at hvalue
    have hform := form_nonneg posDef_twoAssets (y - ![0, 2])
    simp only [QuadraticProgram.lagrangian, QuadraticProgram.objective, ConstructionProblem.program,
      one_smul, List.zipIdx_nil, List.map_nil, List.sum_nil, sub_zero, add_zero]
    linarith
  · have hμ : (cornerOf twoReturns).2 = 0 := congrArg Prod.snd hcorner
    simp only [corners, cornerSolution, ConstructionProblem.program, hμ, QuadraticProgram.reported,
      Dict.ofList, List.foldl_cons, List.foldl_nil, Dict.get?_set, Dict.get?_empty, Pi.zero_apply]
    split_ifs <;> simp

theorem corners_walk : ∃ w o, qpWithCosts twoAssets ⟨[], [], []⟩ noTrade tradingCosts 1 twoReturns
    corners 0 = some (w, o) ∧ o.status = .optimal ∧ o.weights = some ![0, 1] := by
  have hcorner : cornerOf twoReturns = (![0, 2], 0) := by simp [cornerOf, twoReturns]
  have hbase : (qp corners twoAssets ⟨[], [], []⟩ 1 twoReturns 0).solved = some ![0, 2] :=
    congrArg (fun c : (Fin 2 → ℝ) × (Fin 2 → ℝ) => some c.1) hcorner
  have hcharged : tradingCosts.charged ≠ [] := List.ne_nil_of_mem (charged_tradingCosts 0)
  have hstart : startSigns tradingCosts ![0, 2] = 1 := by
    funext i
    fin_cases i <;> simp [startSigns, tradingCosts]
  have hlinear : (orthant twoAssets ⟨[], [], []⟩ noTrade tradingCosts 1 twoReturns 1).linear =
      ![9 / 8, -1] := by
    funext i
    fin_cases i <;> norm_num [orthant, twoReturns, tradingCosts]
  have hat (k : ℕ) : corners (orthant twoAssets ⟨[], [], []⟩ noTrade tradingCosts 1 twoReturns 1) k =
      cornerSolution ![0, 1] ![5 / 8, 0] := by
    rw [corners, hlinear]
    norm_num [cornerOf]
  have hcontent : excesses twoAssets noTrade tradingCosts (cornerSolution ![0, 1] ![5 / 8, 0]) =
      [] := by
    refine List.eq_nil_iff_forall_not_mem.mpr fun i hi => ?_
    have hover := (mem_excesses.mp hi).2
    rw [excessAt, multiplier_cornerSolution] at hover
    fin_cases i <;> norm_num [twoAssets, tradingCosts] at hover
  have hcard : Fintype.card (Signs 2) = 8 + 1 := by
    rw [Fintype.card_fun]
    rfl
  simp only [qpWithCosts, hbase, if_neg hcharged, hstart]
  rw [hcard, orthantLoop, orthantStep_content (x := ![0, 1]) (by rw [hat]; rfl) (by simp [Rose])
    (by rw [hat]; exact hcontent)]
  exact ⟨_, _, rfl, by rw [hat]; rfl, by rw [hat]; rfl⟩

theorem costed_twoAssets (x : Fin 2 → ℝ) :
    costedObjective twoAssets tradingCosts 1 twoReturns x =
      1 / 2 * (x 0 ^ 2 - x 0 * x 1 + x 1 ^ 2) + (x 0 - 2 * x 1) + (1 / 8 * |x 0| + |x 1|) := by
  simp [costedObjective, value, form, twoAssets, twoReturns, tradingCosts, dotProduct,
    Fin.sum_univ_two]
  ring

/-- **What the tolerance leaves.**  With every orthant solved exactly, the weights accepted here are
not least: their side is left uncrossed because its multiplier exceeds the cost by less than the
convergence tolerance. -/
theorem tolerated_optimum_not_least :
    twoAssets.covariance.PosDef ∧ (∀ i, 0 ≤ tradingCosts.rates i) ∧
      (∀ k, (corners (twoAssets.program (twoAssets.compile plain) 1 twoReturns) k).Answers
        (twoAssets.program (twoAssets.compile plain) 1 twoReturns)) ∧
      (∀ s, Sided tradingCosts s → ∀ k,
        (corners (orthant twoAssets (twoAssets.compile plain) noTrade tradingCosts 1 twoReturns s)
          k).Answers
          (orthant twoAssets (twoAssets.compile plain) noTrade tradingCosts 1 twoReturns s)) ∧
      ∃ w o x y, qpWithCosts twoAssets (twoAssets.compile plain) noTrade tradingCosts 1 twoReturns
          corners 0 = some (w, o) ∧ o.status = .optimal ∧ o.weights = some x ∧
        y ∈ (twoAssets.compile plain).portfolios ∧
        costedObjective twoAssets tradingCosts 1 twoReturns y <
          costedObjective twoAssets tradingCosts 1 twoReturns x := by
  rw [compile_twoAssets]
  refine ⟨posDef_twoAssets, ?_, corners_base, corners_orthants, ?_⟩
  · intro i
    fin_cases i <;> simp [tradingCosts]
  · obtain ⟨w, o, hwalk, hstatus, hweights⟩ := corners_walk
    refine ⟨w, o, ![0, 1], ![-1 / 4, 1], hwalk, hstatus, hweights, ?_, ?_⟩
    · simp [Compiled.portfolios, feasible]
    · rw [costed_twoAssets, costed_twoAssets]
      norm_num [abs_of_pos, abs_of_neg]

theorem two_assets_costed : ∃ w o,
    qpWithCosts twoAssets (twoAssets.compile plain) noTrade tradingCosts 1 twoReturns corners 0 =
      some (w, o) ∧ (w.visited.map Visit.signs).Nodup ∧
      (o.status = .infeasible ↔ (twoAssets.compile plain).portfolios = ∅) := by
  have hrates : ∀ i, 0 ≤ tradingCosts.rates i := by
    intro i
    fin_cases i <;> simp [tradingCosts]
  obtain ⟨w, o, hwalk, hfresh, -, -, -, hfeasible, -⟩ :=
    costed_optimum_by_orthants endsInDigit_plain twoAssets posDef_twoAssets noTrade tradingCosts
      hrates 1 one_pos twoReturns (by norm_num [twoAssets]) corners
      (by rw [compile_twoAssets]; exact corners_base)
      (by rw [compile_twoAssets]; exact corners_orthants) 0
  exact ⟨w, o, hwalk, hfresh, hfeasible⟩

end AlphaLab
