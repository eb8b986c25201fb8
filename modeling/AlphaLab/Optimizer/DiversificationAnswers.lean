/-
  What maximum diversification answers.

  * `total_pos`, `scaled_rows`: where the total of `y` is positive it is a
    portfolio scaled, and it can be negative only where the lower bounds add up to more than the net
    exposure;
  * `diversification_answers_iff`: when the method answers the stated problem.
-/
import AlphaLab.Optimizer.Diversification

namespace AlphaLab

open QuadraticForms Matrix

attribute [local instance] Numerals.two Numerals.hundred

variable {n : ℕ}

/-! ## Labels -/

theorem prefix_of_notMem {α : Type} {P A D : List α} {c : α} (h : P <+: A ++ c :: D) (hc : c ∉ P) :
    P <+: A := by
  rcases le_or_gt P.length A.length with hle | hlt
  · exact List.prefix_of_prefix_length_le h (List.prefix_append _ _) hle
  · have hA : A ++ [c] <+: P :=
      List.prefix_of_prefix_length_le (by simp) h (by simpa using hlt)
    exact absurd (hA.subset (by simp)) hc

section
variable {K : Type} [Field K] [LinearOrder K] (N : Arithmetic K) (p : ConstructionProblem n K)

def restRows : List (LinearConstraint n K) :=
  p.weightRows N ++ p.concentrationRows N ++ p.notionalRows N ++ p.groupRows N ++ p.factorRows N

theorem compile_linear : (p.compile N).linear = p.netRows N ++ restRows N p := by
  simp only [ConstructionProblem.compile, restRows, List.append_assoc]

variable {N p}

/-- The text before the first bracket of such a label, which has no space. -/
def BracketedLabel (label : String) : Prop :=
  ∃ head tail : List Char, label.toList = head ++ '[' :: tail ∧ ' ' ∉ head

variable {c : LinearConstraint n K}

theorem bracketed_interval (dimension name : String) (hspace : ' ' ∉ dimension.toList)
    {terms : List (Fin n × K)} {lower upper : Option K}
    (hc : c ∈ interval N (dimension ++ "[" ++ name ++ "]") terms lower upper) :
    BracketedLabel c.label := by
  obtain ⟨relation, x, hlabel⟩ := ConstructionProblem.interval_label N hc
  refine ⟨dimension.toList, name.toList ++ ']' :: (relation.toList ++ (N.repr x).toList), ?_, hspace⟩
  rw [hlabel]
  simp [String.toList_append]

theorem bracketed_rest (hc : c ∈ restRows N p) : BracketedLabel c.label := by
  simp only [restRows, ConstructionProblem.weightRows, ConstructionProblem.concentrationRows,
    ConstructionProblem.notionalRows, ConstructionProblem.groupRows, ConstructionProblem.factorRows,
    ConstructionProblem.assetInterval, List.mem_append, List.mem_flatMap] at hc
  rcases hc with (((⟨i, -, hc⟩ | ⟨cap, -, i, -, hc⟩) | ⟨l, -, i, -, hc⟩) | ⟨g, -, hc⟩) | ⟨f, -, hc⟩
  · exact bracketed_interval _ _ (by decide) hc
  · exact bracketed_interval _ _ (by decide) hc
  · exact bracketed_interval _ _ (by decide) hc
  · split_ifs at hc
    · exact absurd hc List.not_mem_nil
    · exact bracketed_interval _ _ g.classification.identifier hc
  · split_ifs at hc
    · exact absurd hc List.not_mem_nil
    · have hname : f.name = "factor" ++ "[" ++ f.factor ++ "]" := by
        rw [FactorBound.name, show "factor" ++ "[" = "factor[" by decide]
      rw [hname] at hc
      exact bracketed_interval _ _ (by decide) hc

variable {label : String}

theorem BracketedLabel.not_startsWith (h : BracketedLabel label) :
    startsWith label "net exposure" = false := by
  obtain ⟨head, tail, hlabel, hspace⟩ := h
  refine Bool.eq_false_iff.mpr fun hstarts => ?_
  have hprefix : "net exposure".toList <+: head ++ '[' :: tail := by
    rw [← hlabel]
    exact List.isPrefixOf_iff_prefix.mp hstarts
  exact hspace ((prefix_of_notMem hprefix (by decide)).subset (by decide))

theorem BracketedLabel.ne_normalization (h : BracketedLabel label) :
    label ≠ normalizationLabel := by
  rintro rfl
  obtain ⟨head, tail, hlabel, -⟩ := h
  have hbracket : '[' ∈ normalizationLabel.toList := by
    rw [hlabel]
    simp
  exact absurd hbracket (by decide)

theorem netRows_startsWith (hc : c ∈ p.netRows N) : startsWith c.label "net exposure" = true := by
  obtain ⟨relation, x, hlabel⟩ := ConstructionProblem.interval_label N hc
  rw [hlabel, startsWith, List.isPrefixOf_iff_prefix]
  simp [String.toList_append]

theorem net_filter : (p.compile N).linear.filter (fun c => !startsWith c.label "net exposure") =
    restRows N p := by
  have hnet : (p.netRows N).filter (fun c => !startsWith c.label "net exposure") = [] := by
    refine List.filter_eq_nil_iff.mpr fun c hc => ?_
    simp [netRows_startsWith hc]
  have hrest : (restRows N p).filter (fun c => !startsWith c.label "net exposure") = restRows N p := by
    refine List.filter_eq_self.mpr fun c hc => ?_
    simp [(bracketed_rest hc).not_startsWith]
  rw [compile_linear, List.filter_append, hnet, hrest, List.nil_append]

end

/-! ## Portfolios and directions -/

variable {k : ℝ}

section
variable {repr : ℝ → String} {p : ConstructionProblem n ℝ} {B : ℝ} {w y : Fin n → ℝ}

structure Budgeted (p : ConstructionProblem n ℝ) (B : ℝ) : Prop where
  longOnly : ∀ i, LongOnly p i
  turnover : p.constraints.turnover = none
  lower : p.constraints.netExposure.lower = some B
  upper : p.constraints.netExposure.upper = some B
  pos : 0 < B

theorem budgeted_of_accepted (h : diversificationRefusal p = none) :
    Budgeted p (p.constraints.netExposure.lower.getD 0) := by
  simp only [diversificationRefusal] at h
  cases hfind : (List.finRange n).find? fun i => ¬LongOnly p i with
  | some i => simp only [hfind, reduceCtorEq] at h
  | none =>
    simp only [hfind] at h
    split_ifs at h with hfixed hbudget
    obtain ⟨hturnover, -⟩ := not_or.mp hfixed
    obtain ⟨hexact, hpos⟩ := not_or.mp hbudget
    obtain ⟨hsome, hequal⟩ := not_not.mp hexact
    obtain ⟨b, hb⟩ := Option.isSome_iff_exists.mp hsome
    refine ⟨fun i => ?_, by simpa using hturnover, by simp [hb], by simp [← hequal, hb],
      not_not.mp hpos⟩
    simpa using List.find?_eq_none.mp hfind i (List.mem_finRange i)

/-- Every row other than the net exposure's holds, homogenized. -/
def Homogeneous (repr : ℝ → String) (p : ConstructionProblem n ℝ) (B : ℝ) (y : Fin n → ℝ) : Prop :=
  ∀ c ∈ restRows (exactly repr) p,
    if c.equality then homogeneousSlack B c y = 0 else 0 ≤ homogeneousSlack B c y

/-- `sigma' y`. -/
noncomputable def weightedVolatility (p : ConstructionProblem n ℝ) (y : Fin n → ℝ) : ℝ :=
  ∑ i, √(p.covariance i i) * y i

theorem homogeneousSlack_smul (k : ℝ) (c : LinearConstraint n ℝ) (hw : ∑ i, w i = B) :
    homogeneousSlack B c (k • w) = k * B * c.slack w := by
  have hdot := dot_combine c.terms k 0 w 0
  simp only [zero_smul, add_zero, zero_mul] at hdot
  have hsum : ∑ i, (k • w) i = k * B := by
    simp only [Pi.smul_apply, smul_eq_mul, ← Finset.mul_sum, hw]
  rw [homogeneousSlack, hdot, hsum, LinearConstraint.slack]
  ring

theorem homogeneous_smul (hk : 0 < k) (hB : 0 < B) (hw : ∑ i, w i = B) :
    Homogeneous repr p B (k • w) ↔ ∀ c ∈ restRows (exactly repr) p, c.Holds w := by
  refine forall₂_congr fun c _ => ?_
  have hkB : 0 < k * B := mul_pos hk hB
  rw [homogeneousSlack_smul k c hw]
  cases he : c.equality with
  | true => simp [LinearConstraint.Holds, he, hkB.ne']
  | false => simp [LinearConstraint.Holds, he, hkB]

theorem exists_lowerRow (repr : ℝ → String) (hp : Budgeted p B) (i : Fin n) : ∃ l, 0 ≤ l ∧
    ∃ c ∈ restRows (exactly repr) p, c.terms = [(i, 1)] ∧ c.bound = l := by
  obtain ⟨l, hl, hnonneg⟩ := hp.longOnly i
  have hsome := Option.mem_def.mp hl
  have hrow : ∃ c ∈ p.assetInterval (exactly repr) "weight" i
      (p.constraints.bounds.forAsset (p.universe_ i)).1
      (p.constraints.bounds.forAsset (p.universe_ i)).2, c.terms = [(i, 1)] ∧ c.bound = l := by
    simp only [ConstructionProblem.assetInterval, interval, hsome]
    split_ifs
    · exact ⟨_, List.mem_singleton_self _, rfl, rfl⟩
    · exact ⟨_, List.mem_append_left _ (List.mem_singleton_self _), rfl, rfl⟩
  obtain ⟨c, hc, hterms, hbound⟩ := hrow
  refine ⟨l, hnonneg, c, ?_, hterms, hbound⟩
  simp only [restRows, List.mem_append, ConstructionProblem.weightRows, List.mem_flatMap]
  exact .inl (.inl (.inl (.inl ⟨i, List.mem_finRange i, hc⟩)))

theorem exists_lower (repr : ℝ → String) (hp : Budgeted p B) : ∃ l : Fin n → ℝ, (∀ i, 0 ≤ l i) ∧
    (∀ w, (∀ c ∈ restRows (exactly repr) p, c.Holds w) → ∀ i, l i ≤ w i) ∧
    ∀ y, Homogeneous repr p B y → ∀ i, l i * ∑ j, y j ≤ B * y i := by
  choose l hnonneg c hc hterms hbound using fun i => exists_lowerRow repr hp i
  refine ⟨l, hnonneg, fun w hw i => ?_, fun y hy i => ?_⟩
  · have hslack := (hw (c i) (hc i)).nonneg
    simp only [LinearConstraint.slack, dot, hterms, hbound, List.map_cons, List.map_nil,
      List.sum_cons, List.sum_nil, one_mul, add_zero] at hslack
    linarith
  · have hrow := hy (c i) (hc i)
    have hslack : 0 ≤ homogeneousSlack B (c i) y := by
      split_ifs at hrow
      · exact hrow.ge
      · exact hrow
    simp only [homogeneousSlack, dot, hterms, hbound, List.map_cons, List.map_nil, List.sum_cons,
      List.sum_nil, one_mul, add_zero] at hslack
    linarith

theorem absolute_eq (hp : Budgeted p B) : (p.compile (exactly repr)).absolute =
    p.constraints.maxGrossExposure.toList.map fun limit =>
      ⟨ConstructionProblem.grossLabel (exactly repr) limit, (List.finRange n).map fun i => (i, 0),
        limit⟩ := by
  simp [ConstructionProblem.compile, ConstructionProblem.absoluteLimits, hp.turnover]

theorem mem_portfolios (hp : Budgeted p B) :
    w ∈ (p.compile (exactly repr)).portfolios ↔ ∑ i, w i = B ∧
      (∀ c ∈ restRows (exactly repr) p, c.Holds w) ∧
        ∀ limit ∈ p.constraints.maxGrossExposure, ∑ i, |w i| ≤ limit := by
  have hnet : p.netRows (exactly repr) =
      [⟨"net exposure" ++ " = " ++ repr B, ConstructionProblem.everyone, B, true⟩] := by
    simp [ConstructionProblem.netRows, interval, hp.lower, hp.upper, exactly]
  have hsum : dot (ConstructionProblem.everyone : List (Fin n × ℝ)) w = ∑ i, w i := by
    rw [ConstructionProblem.everyone, dot_indexed (fun _ => 1)]
    simp
  have hgross (limit : ℝ) : (AbsoluteSumLimit.mk (n := n)
      (ConstructionProblem.grossLabel (exactly repr) limit)
      ((List.finRange n).map fun i => (i, 0)) limit).Holds w ↔ ∑ i, |w i| ≤ limit := by
    simp [AbsoluteSumLimit.Holds, AbsoluteSumLimit.excess, absoluteSum, Fin.sum_univ_def,
      Function.comp_def]
  rw [Compiled.portfolios, feasible, Set.mem_ofPred_eq, compile_linear, hnet, absolute_eq hp]
  simp only [List.forall_mem_append, List.forall_mem_singleton, List.forall_mem_map, hgross,
    Option.mem_toList, LinearConstraint.Holds, LinearConstraint.slack, if_true, hsum, sub_eq_zero,
    and_assoc]
  rfl

theorem volatility_pos (hC : p.covariance.PosDef) (i : Fin n) : 0 < √(p.covariance i i) :=
  Real.sqrt_pos.mpr hC.diag_pos

theorem mem_program : y ∈ feasible
      (diversificationProgram (exactly repr) p (p.compile (exactly repr)) B).constraints [] ↔
    weightedVolatility p y = 1 ∧ Homogeneous repr p B y := by
  have hnormal : (normalization (exactly repr) p).Holds y ↔ weightedVolatility p y = 1 := by
    have hdot : dot (normalization (exactly repr) p).terms y = weightedVolatility p y :=
      dot_indexed _ _
    simp only [LinearConstraint.Holds, LinearConstraint.slack, hdot]
    simp [normalization, sub_eq_zero]
  rw [diversificationProgram, net_filter]
  simp only [feasible, Set.mem_ofPred_eq, List.forall_mem_cons, List.forall_mem_flatMap,
    homogenize_holds, hnormal, List.not_mem_nil, IsEmpty.forall_iff, implies_true, and_true]
  rfl

theorem weightedVolatility_smul (k : ℝ) : weightedVolatility p (k • w) = k * weightedVolatility p w := by
  simp only [weightedVolatility, Pi.smul_apply, smul_eq_mul, Finset.mul_sum]
  exact Finset.sum_congr rfl fun i _ => by ring

theorem weightedVolatility_pos (hC : p.covariance.PosDef) (hB : 0 < B) (hw : ∀ i, 0 ≤ w i)
    (hsum : ∑ i, w i = B) : 0 < weightedVolatility p w := by
  have hterms : ∀ i ∈ Finset.univ, 0 ≤ √(p.covariance i i) * w i :=
    fun i _ => mul_nonneg (volatility_pos hC i).le (hw i)
  refine (Finset.sum_nonneg hterms).lt_of_ne fun hzero => ?_
  have hall := (Finset.sum_eq_zero_iff_of_nonneg hterms).mp hzero.symm
  have hnone : ∑ i, w i = 0 := Finset.sum_eq_zero fun i hi =>
    (mul_eq_zero.mp (hall i hi)).resolve_left (volatility_pos hC i).ne'
  linarith

theorem total_ne_zero (hp : Budgeted p B) (hy : Homogeneous repr p B y)
    (hone : weightedVolatility p y = 1) : ∑ i, y i ≠ 0 := by
  intro hzero
  obtain ⟨l, -, -, hlower⟩ := exists_lower repr hp
  have hnonneg : ∀ i ∈ Finset.univ, 0 ≤ y i := by
    intro i _
    have h := hlower y hy i
    rw [hzero, mul_zero] at h
    exact nonneg_of_mul_nonneg_right h hp.pos
  have hall := (Finset.sum_eq_zero_iff_of_nonneg hnonneg).mp hzero
  have hnone : weightedVolatility p y = 0 :=
    Finset.sum_eq_zero fun i hi => by rw [hall i hi, mul_zero]
  exact absurd (hone.symm.trans hnone) one_ne_zero

theorem total_pos (hp : Budgeted p B) (hC : p.covariance.PosDef)
    (hw : w ∈ (p.compile (exactly repr)).portfolios) (hy : Homogeneous repr p B y)
    (hone : weightedVolatility p y = 1) : 0 < ∑ i, y i := by
  refine lt_of_le_of_ne (not_lt.mp fun hneg => ?_) (total_ne_zero hp hy hone).symm
  obtain ⟨l, hl, hportfolio, hlower⟩ := exists_lower repr hp
  obtain ⟨hsum, hrows, -⟩ := (mem_portfolios hp).mp hw
  have hbounds : ∑ i, l i ≤ B := by
    rw [← hsum]
    exact Finset.sum_le_sum fun i _ => hportfolio w hrows i
  -- the surplus of `B y` over the lower bounds adds up to less than zero unless there is none
  have hsurplus : ∑ i, (B * y i - l i * ∑ j, y j) = (B - ∑ i, l i) * ∑ i, y i := by
    rw [Finset.sum_sub_distrib, ← Finset.mul_sum, ← Finset.sum_mul]
    ring
  have hterms : ∀ i ∈ Finset.univ, 0 ≤ B * y i - l i * ∑ j, y j :=
    fun i _ => sub_nonneg.mpr (hlower y hy i)
  have hzero : ∑ i, (B * y i - l i * ∑ j, y j) = 0 := by
    refine le_antisymm ?_ (Finset.sum_nonneg hterms)
    rw [hsurplus]
    exact mul_nonpos_of_nonneg_of_nonpos (by linarith) hneg.le
  have hall := (Finset.sum_eq_zero_iff_of_nonneg hterms).mp hzero
  have hnonpos : ∀ i, y i ≤ 0 := by
    intro i
    have h : B * y i = l i * ∑ j, y j := sub_eq_zero.mp (hall i (Finset.mem_univ i))
    have hle : B * y i ≤ 0 := h.trans_le (mul_nonpos_of_nonneg_of_nonpos (hl i) hneg.le)
    nlinarith [hp.pos]
  have hvolatility : weightedVolatility p y ≤ 0 := Finset.sum_nonpos fun i _ =>
    mul_nonpos_of_nonneg_of_nonpos (volatility_pos hC i).le (hnonpos i)
  linarith

theorem scaled_rows (hp : Budgeted p B) (htotal : 0 < ∑ i, y i) (hy : Homogeneous repr p B y) :
    ∑ i, B * y i / ∑ j, y j = B ∧
      ∀ c ∈ restRows (exactly repr) p, c.Holds fun i => B * y i / ∑ j, y j := by
  have hsum : ∑ i, B * y i / ∑ j, y j = B := by
    rw [← Finset.sum_div, ← Finset.mul_sum]
    field_simp
  have hscale : y = ((∑ j, y j) / B) • fun i => B * y i / ∑ j, y j := by
    funext i
    have hB := hp.pos.ne'
    simp only [Pi.smul_apply, smul_eq_mul]
    field_simp
  refine ⟨hsum, ?_⟩
  rw [hscale] at hy
  exact (homogeneous_smul (div_pos htotal hp.pos) hp.pos hsum).mp hy

theorem abs_sum_of_rows (hp : Budgeted p B) (hsum : ∑ i, w i = B)
    (hrows : ∀ c ∈ restRows (exactly repr) p, c.Holds w) : (∀ i, 0 ≤ w i) ∧ ∑ i, |w i| = B := by
  obtain ⟨l, hl, hportfolio, -⟩ := exists_lower repr hp
  have hnonneg : ∀ i, 0 ≤ w i := fun i => (hl i).trans (hportfolio w hrows i)
  refine ⟨hnonneg, ?_⟩
  rw [← hsum]
  exact Finset.sum_congr rfl fun i _ => abs_of_nonneg (hnonneg i)

end

/-! ## The answer -/

noncomputable def originalLabels (repr : ℝ → String) (p : ConstructionProblem n ℝ) : List String :=
  "net exposure" :: ((p.compile (exactly repr)).linear.map LinearConstraint.label ++
    (p.compile (exactly repr)).absolute.map AbsoluteSumLimit.label)

/-- `sum_i w_i sigma_i / sqrt(w' C w)`. -/
noncomputable def diversificationRatio (p : ConstructionProblem n ℝ) (w : Fin n → ℝ) : ℝ :=
  weightedVolatility p w / √(form p.covariance w)

/-- The outcome is the most diversified portfolio, or that there is none. -/
structure AnswersRatio (repr : ℝ → String) (p : ConstructionProblem n ℝ) (o : Outcome n ℝ) :
    Prop where
  optimal : (p.compile (exactly repr)).portfolios.Nonempty → o.status = .optimal ∧
    ∃ w, o.weights = some w ∧ w ∈ (p.compile (exactly repr)).portfolios ∧
      ∀ v ∈ (p.compile (exactly repr)).portfolios, diversificationRatio p v ≤ diversificationRatio p w
  infeasible : (p.compile (exactly repr)).portfolios = ∅ → o.status = .infeasible

def NamesOriginals (repr : ℝ → String) (p : ConstructionProblem n ℝ) (o : Outcome n ℝ) : Prop :=
  (p.compile (exactly repr)).portfolios = ∅ →
    o.conflict ≠ [] ∧ ∀ label ∈ o.conflict, label ∈ originalLabels repr p

/-- Weights of the wanted total that break every row the other way, or meet it exactly. -/
def Reversed (repr : ℝ → String) (p : ConstructionProblem n ℝ) (B : ℝ) (v : Fin n → ℝ) : Prop :=
  ∑ i, v i = B ∧ weightedVolatility p v < 0 ∧
    ∀ c ∈ restRows (exactly repr) p, if c.equality then c.slack v = 0 else c.slack v ≤ 0

def QuadraticSolution.Explains (q : QuadraticProgram n ℝ) (s : QuadraticSolution n ℝ) : Prop :=
  s.status = .infeasible → feasible (q.constraints.filter fun c => c.label ∈ s.conflict)
    (q.absoluteSums.filter fun f => f.label ∈ s.conflict) = ∅

section
variable {repr : ℝ → String} {p : ConstructionProblem n ℝ} {B : ℝ} {w v y : Fin n → ℝ}

theorem reversed_smul (hk : k < 0) (hB : 0 < B) (hv : ∑ i, v i = B) :
    Homogeneous repr p B (k • v) ↔
      ∀ c ∈ restRows (exactly repr) p, if c.equality then c.slack v = 0 else c.slack v ≤ 0 := by
  refine forall₂_congr fun c _ => ?_
  have hkB : k * B < 0 := mul_neg_of_neg_of_pos hk hB
  rw [homogeneousSlack_smul k c hv]
  cases c.equality with
  | true => simp [hk.ne, hB.ne']
  | false =>
    simp only [Bool.false_eq_true, if_false]
    exact ⟨fun h => by nlinarith, fun h => by nlinarith⟩

theorem exists_negative_iff (hp : Budgeted p B) :
    (∃ y, weightedVolatility p y = 1 ∧ Homogeneous repr p B y ∧ ∑ i, y i < 0) ↔
      ∃ v, Reversed repr p B v := by
  constructor
  · rintro ⟨y, hone, hy, hneg⟩
    have hscale : y = ((∑ i, y i) / B) • ((B / ∑ i, y i) • y) := by
      rw [smul_smul, div_mul_div_cancel₀ hp.pos.ne', div_self hneg.ne, one_smul]
    have hsum : ∑ i, ((B / ∑ i, y i) • y) i = B := by
      simp only [Pi.smul_apply, smul_eq_mul, ← Finset.mul_sum]
      exact div_mul_cancel₀ B hneg.ne
    refine ⟨(B / ∑ i, y i) • y, hsum, ?_, ?_⟩
    · rw [weightedVolatility_smul, hone, mul_one]
      exact div_neg_of_pos_of_neg hp.pos hneg
    · rw [hscale] at hy
      exact (reversed_smul (div_neg_of_neg_of_pos hneg hp.pos) hp.pos hsum).mp hy
  · rintro ⟨v, hsum, hneg, hrows⟩
    refine ⟨(1 / weightedVolatility p v) • v, ?_, ?_, ?_⟩
    · rw [weightedVolatility_smul, one_div, inv_mul_cancel₀ hneg.ne]
    · exact (reversed_smul (div_neg_of_pos_of_neg one_pos hneg) hp.pos hsum).mpr hrows
    · simp only [Pi.smul_apply, smul_eq_mul, ← Finset.mul_sum, hsum]
      exact mul_neg_of_neg_of_pos (div_neg_of_pos_of_neg one_pos hneg) hp.pos

theorem program_of_portfolio (hp : Budgeted p B) (hC : p.covariance.PosDef)
    (hw : w ∈ (p.compile (exactly repr)).portfolios) : 0 < weightedVolatility p w ∧
      weightedVolatility p ((1 / weightedVolatility p w) • w) = 1 ∧
        Homogeneous repr p B ((1 / weightedVolatility p w) • w) := by
  obtain ⟨hsum, hrows, -⟩ := (mem_portfolios hp).mp hw
  have hpos := weightedVolatility_pos hC hp.pos (abs_sum_of_rows hp hsum hrows).1 hsum
  refine ⟨hpos, ?_, (homogeneous_smul (one_div_pos.mpr hpos) hp.pos hsum).mpr hrows⟩
  rw [weightedVolatility_smul, one_div, inv_mul_cancel₀ hpos.ne']

theorem ratio_smul (hk : 0 < k) : diversificationRatio p (k • w) = diversificationRatio p w := by
  rw [diversificationRatio, weightedVolatility_smul, form_smul, Real.sqrt_mul (sq_nonneg k),
    Real.sqrt_sq hk.le, mul_div_mul_left _ _ hk.ne', diversificationRatio]

theorem ratio_le_of_form_le (hC : p.covariance.PosDef) (hy : weightedVolatility p y = 1)
    (hv : weightedVolatility p v = 1) (hform : form p.covariance y ≤ form p.covariance v) :
    diversificationRatio p v ≤ diversificationRatio p y := by
  have hne : y ≠ 0 := by
    rintro rfl
    simp [weightedVolatility] at hy
  rw [diversificationRatio, diversificationRatio, hy, hv]
  exact one_div_le_one_div_of_le (Real.sqrt_pos.mpr (form_pos hC hne)) (Real.sqrt_le_sqrt hform)

/-- The scaled optimum is the most diversified portfolio. -/
theorem most_diversified (hp : Budgeted p B) (hC : p.covariance.PosDef)
    (hgross : ∀ limit ∈ p.constraints.maxGrossExposure, B ≤ limit)
    (hone : weightedVolatility p y = 1) (hy : Homogeneous repr p B y) (htotal : 0 < ∑ i, y i)
    (hleast : ∀ z, weightedVolatility p z = 1 → Homogeneous repr p B z →
      form p.covariance y ≤ form p.covariance z) :
    (fun i => B * y i / ∑ j, y j) ∈ (p.compile (exactly repr)).portfolios ∧
      ∀ v ∈ (p.compile (exactly repr)).portfolios,
        diversificationRatio p v ≤ diversificationRatio p fun i => B * y i / ∑ j, y j := by
  obtain ⟨hsum, hrows⟩ := scaled_rows hp htotal hy
  obtain ⟨-, habs⟩ := abs_sum_of_rows hp hsum hrows
  refine ⟨(mem_portfolios hp).mpr ⟨hsum, hrows, fun limit hl => habs.trans_le (hgross limit hl)⟩, ?_⟩
  intro v hv
  obtain ⟨hpos, hvone, hvrows⟩ := program_of_portfolio hp hC hv
  have hscale : (fun i => B * y i / ∑ j, y j) = (B / ∑ j, y j) • y := by
    funext i
    simp only [Pi.smul_apply, smul_eq_mul]
    ring
  rw [hscale, ratio_smul (div_pos hp.pos htotal), ← ratio_smul (p := p) (w := v)
    (one_div_pos.mpr hpos)]
  exact ratio_le_of_form_le hC hone hvone (hleast _ hvone hvrows)

theorem normalization_mem_conflict {s : QuadraticSolution n ℝ}
    (hstatus : s.status = .infeasible)
    (hexplains : s.Explains (diversificationProgram (exactly repr) p (p.compile (exactly repr)) B)) :
    normalizationLabel ∈ s.conflict := by
  by_contra hnot
  have hempty := hexplains hstatus
  -- without it the rows hold at zero
  have hzero : Homogeneous repr p B 0 := by
    intro c _
    have hslack : homogeneousSlack B c 0 = 0 := by simp [homogeneousSlack, dot]
    simp [hslack]
  have hmem : (0 : Fin n → ℝ) ∈ feasible
      ((diversificationProgram (exactly repr) p (p.compile (exactly repr)) B).constraints.filter
        fun c => c.label ∈ s.conflict)
      ((diversificationProgram (exactly repr) p (p.compile (exactly repr)) B).absoluteSums.filter
        fun f => f.label ∈ s.conflict) := by
    rw [diversificationProgram, net_filter]
    refine ⟨fun c hc => ?_, by simp⟩
    obtain ⟨hc, hlabel⟩ := List.mem_filter.mp hc
    rcases List.mem_cons.mp hc with rfl | hc
    · exact absurd (of_decide_eq_true hlabel) hnot
    · obtain ⟨row, hrow, hc⟩ := List.mem_flatMap.mp hc
      exact homogenize_holds.mpr (hzero row hrow) c hc
  rw [hempty] at hmem
  exact hmem

theorem gross_ne_normalization (hp : Budgeted p B) {f : AbsoluteSumLimit n ℝ}
    (hf : f ∈ (p.compile (exactly repr)).absolute) : f.label ≠ normalizationLabel := by
  rw [absolute_eq hp] at hf
  obtain ⟨limit, -, rfl⟩ := List.mem_map.mp hf
  intro hlabel
  have hhead : ("gross exposure <= " ++ repr limit).toList.head? = normalizationLabel.toList.head? :=
    congrArg (fun t : String => t.toList.head?) hlabel
  have hgross : "gross exposure <= ".toList.head? = some 'g' := by decide
  have hnormal : normalizationLabel.toList.head? = some 'd' := by decide
  rw [String.toList_append, List.head?_append, hgross, hnormal, Option.some_or] at hhead
  exact absurd hhead (by decide)

theorem normalization_not_original (hp : Budgeted p B) :
    normalizationLabel ∉ originalLabels repr p := by
  intro hmem
  rcases List.mem_cons.mp hmem with hnet | hmem
  · exact absurd hnet (by decide)
  rcases List.mem_append.mp hmem with hlinear | habsolute
  · obtain ⟨c, hc, hlabel⟩ := List.mem_map.mp hlinear
    rw [compile_linear] at hc
    rcases List.mem_append.mp hc with hc | hc
    · have hstarts := netRows_startsWith hc
      rw [hlabel] at hstarts
      exact absurd hstarts (by decide)
    · exact (bracketed_rest hc).ne_normalization hlabel
  · obtain ⟨f, hf, hlabel⟩ := List.mem_map.mp habsolute
    exact gross_ne_normalization hp hf hlabel

end

/-- **Maximum diversification.**  The method answers the stated problem, with labels of the problem in
conflict where there is no portfolio, iff there is a portfolio or the gross limit is below the net
exposure.  Its status and weights alone are right iff, besides, the rows cannot be met in reverse by
weights of the wanted total and of negative volatility. -/
theorem diversification_answers_iff (repr : ℝ → String) (p : ConstructionProblem n ℝ)
    (hC : p.covariance.PosDef) (solve : Solver n ℝ) (B : ℝ)
    (hB : B = p.constraints.netExposure.lower.getD 0)
    (hsolve : (solve (diversificationProgram (exactly repr) p (p.compile (exactly repr)) B) 0).Answers
      (diversificationProgram (exactly repr) p (p.compile (exactly repr)) B))
    (hexplains : (solve (diversificationProgram (exactly repr) p (p.compile (exactly repr)) B)
      0).Explains (diversificationProgram (exactly repr) p (p.compile (exactly repr)) B))
    (o : Outcome n ℝ)
    (ho : maximumDiversification (exactly repr) p solve (p.compile (exactly repr)) = .ok o) :
    (AnswersRatio repr p o ∧ NamesOriginals repr p o ↔
      (p.compile (exactly repr)).portfolios.Nonempty ∨
        ∃ limit ∈ p.constraints.maxGrossExposure, limit < B) ∧
    (AnswersRatio repr p o ↔
      (p.compile (exactly repr)).portfolios.Nonempty ∨
        (∃ limit ∈ p.constraints.maxGrossExposure, limit < B) ∨ ¬∃ v, Reversed repr p B v) := by
  simp only [maximumDiversification] at ho
  cases haccepted : diversificationRefusal p with
  | some refusal => simp [haccepted] at ho
  | none =>
    have hp : Budgeted p B := hB ▸ budgeted_of_accepted haccepted
    simp only [haccepted, ← hB] at ho
    cases hlimit : p.constraints.maxGrossExposure.filter (· < B) with
    | some limit =>
      -- a long-only portfolio's gross exposure is its net exposure
      obtain ⟨hmax, hlt⟩ := Option.filter_eq_some_iff.mp hlimit
      have hlt := of_decide_eq_true hlt
      simp only [hlimit, Except.ok.injEq] at ho
      subst ho
      have hempty : (p.compile (exactly repr)).portfolios = ∅ := by
        refine Set.eq_empty_iff_forall_notMem.mpr fun w hw => ?_
        obtain ⟨hsum, hrows, hgross⟩ := (mem_portfolios hp).mp hw
        have := hgross limit hmax
        rw [(abs_sum_of_rows hp hsum hrows).2] at this
        exact absurd hlt (not_lt.mpr this)
      have hbelow : ∃ limit ∈ p.constraints.maxGrossExposure, limit < B := ⟨limit, hmax, hlt⟩
      have hanswers : AnswersRatio repr p ⟨.infeasible, none, 0, [],
          ["net exposure", ConstructionProblem.grossLabel (exactly repr) limit], some 0, none, none⟩ :=
        ⟨fun h => absurd hempty h.ne_empty, fun _ => rfl⟩
      have hnames : NamesOriginals repr p ⟨.infeasible, none, 0, [],
          ["net exposure", ConstructionProblem.grossLabel (exactly repr) limit], some 0, none, none⟩ := by
        refine fun _ => ⟨List.cons_ne_nil _ _, ?_⟩
        simp only [List.forall_mem_cons, List.not_mem_nil, IsEmpty.forall_iff, implies_true, and_true]
        refine ⟨List.mem_cons_self, List.mem_cons_of_mem _ (List.mem_append_right _ ?_)⟩
        rw [absolute_eq hp, hmax]
        exact List.mem_singleton_self _
      exact ⟨iff_of_true ⟨hanswers, hnames⟩ (.inr hbelow), iff_of_true hanswers (.inr (.inl hbelow))⟩
    | none =>
      have hgross : ∀ limit ∈ p.constraints.maxGrossExposure, B ≤ limit := by
        intro limit hl
        simpa using Option.filter_eq_none_iff.mp hlimit limit hl
      have hnotbelow : ¬∃ limit ∈ p.constraints.maxGrossExposure, limit < B := by
        rintro ⟨limit, hl, hlt⟩
        exact absurd hlt (not_lt.mpr (hgross limit hl))
      simp only [hlimit] at ho
      cases hsolve with
      | optimal y m status point certified _ =>
        obtain ⟨hone, hy⟩ := mem_program.mp certified.meets
        simp only [point, Except.ok.injEq] at ho
        have hstatus : o.status = .optimal := by
          rw [← ho]
          simp [fromSolution, status, ConstructionStatus.ofSolve]
        have hweights : o.weights = some fun i => B * y i / ∑ j, y j := by rw [← ho]
        have hleast : ∀ z, weightedVolatility p z = 1 → Homogeneous repr p B z →
            form p.covariance y ≤ form p.covariance z := by
          intro z hz hz'
          have h := isMinOn_iff.mp certified.isMinOn z (mem_program.mpr ⟨hz, hz'⟩)
          simp only [QuadraticProgram.objective, diversificationProgram, value, one_smul,
            zero_dotProduct, add_zero] at h
          linarith
        rcases (total_ne_zero hp hy hone).lt_or_gt with hneg | hpos
        · -- the point corresponds to no portfolio, and there is none
          have hempty : ¬(p.compile (exactly repr)).portfolios.Nonempty := by
            rintro ⟨w, hw⟩
            exact absurd (total_pos hp hC hw hy hone) (not_lt.mpr hneg.le)
          have hreversed := (exists_negative_iff hp).mp ⟨y, hone, hy, hneg⟩
          have hwrong : ¬AnswersRatio repr p o := fun h =>
            absurd (h.infeasible (Set.not_nonempty_iff_eq_empty.mp hempty)) (by simp [hstatus])
          refine ⟨iff_of_false (fun h => hwrong h.1) ?_, iff_of_false hwrong ?_⟩
          · exact not_or.mpr ⟨hempty, hnotbelow⟩
          · exact not_or.mpr ⟨hempty, not_or.mpr ⟨hnotbelow, not_not.mpr hreversed⟩⟩
        · obtain ⟨hmem, hmost⟩ := most_diversified hp hC hgross hone hy hpos hleast
          have hnonempty : (p.compile (exactly repr)).portfolios.Nonempty := ⟨_, hmem⟩
          have hanswers : AnswersRatio repr p o :=
            ⟨fun _ => ⟨hstatus, _, hweights, hmem, hmost⟩, fun h => absurd h hnonempty.ne_empty⟩
          exact ⟨iff_of_true ⟨hanswers, fun h => absurd h hnonempty.ne_empty⟩ (.inl hnonempty),
            iff_of_true hanswers (.inl hnonempty)⟩
      | infeasible status point inconsistent =>
        simp only [point, Except.ok.injEq] at ho
        subst ho
        have hempty : (p.compile (exactly repr)).portfolios = ∅ := by
          refine Set.eq_empty_iff_forall_notMem.mpr fun w hw => ?_
          obtain ⟨-, hone, hy⟩ := program_of_portfolio hp hC hw
          have hmem := mem_program.mpr ⟨hone, hy⟩
          rw [show feasible _ [] = ∅ from inconsistent] at hmem
          exact hmem
        have hanswers : AnswersRatio repr p (fromSolution (solve
            (diversificationProgram (exactly repr) p (p.compile (exactly repr)) B) 0) 0) :=
          ⟨fun h => absurd hempty h.ne_empty,
            fun _ => by simp [fromSolution, status, ConstructionStatus.ofSolve]⟩
        have hnonames : ¬NamesOriginals repr p (fromSolution (solve
            (diversificationProgram (exactly repr) p (p.compile (exactly repr)) B) 0) 0) := by
          intro h
          refine normalization_not_original hp ((h hempty).2 _ ?_)
          exact List.mem_eraseDups.mpr (normalization_mem_conflict status hexplains)
        refine ⟨iff_of_false (fun h => hnonames h.2) ?_, iff_of_true hanswers (.inr (.inr ?_))⟩
        · exact not_or.mpr ⟨Set.not_nonempty_iff_eq_empty.mpr hempty, hnotbelow⟩
        · rintro hreversed
          obtain ⟨y, hone, hy, -⟩ := (exists_negative_iff hp).mpr hreversed
          have hmem := mem_program.mpr ⟨hone, hy⟩
          rw [show feasible _ [] = ∅ from inconsistent] at hmem
          exact hmem

/-! ## Lower bounds beyond the net exposure -/

/-- Two uncorrelated assets of volatility one and ten, of which three and one are to be held at least,
out of one in all. -/
noncomputable def overfull : ConstructionProblem 2 ℝ where
  universe_ := !["A", "B"]
  distinct := two_labels
  covariance := !![1, 0; 0, 100]
  constraints := ⟨⟨some 1, some 1⟩, ⟨some 1, none, Dict.empty.set "A" (some 3, none)⟩, none, none, [],
    [], none, none, none⟩
  settings := ⟨1 / 1000, 1 / 1000, 100⟩

noncomputable def reversedSolver : Solver 2 ℝ := fun _ _ =>
  ⟨.optimal, some ![-3 / 17, 2 / 17], none, 2, [],
    .ofList [(normalizationLabel, 409 / 289), ("weight[A] >= 0", 230 / 289)], [], 0, 0, 1⟩

def rowA : LinearConstraint 2 ℝ := ⟨"weight[A] >= 0", [(0, 1)], 3, false⟩

def rowB : LinearConstraint 2 ℝ := ⟨"weight[B] >= 0", [(1, 1)], 1, false⟩

theorem restRows_overfull : restRows (exactly fun _ => "0") overfull = [rowA, rowB] := by
  have hA : overfull.constraints.bounds.forAsset "A" = (some 3, none) := by
    simp [overfull, WeightBounds.forAsset]
  have hB : overfull.constraints.bounds.forAsset "B" = (some 1, none) := by
    simp [overfull, WeightBounds.forAsset, Dict.get?_set]
  have h0 : overfull.universe_ 0 = "A" := rfl
  have h1 : overfull.universe_ 1 = "B" := rfl
  have hweights : overfull.weightRows (exactly fun _ => "0") = [rowA, rowB] := by
    simp [ConstructionProblem.weightRows, ConstructionProblem.assetInterval, interval, hA, hB, h0, h1,
      List.finRange_succ, rowA, rowB, exactly]
  rw [restRows, hweights]
  rfl

theorem accepted_overfull : diversificationRefusal overfull = none := by
  have hlong : ∀ i, LongOnly overfull i := by
    intro i
    fin_cases i <;> simp [LongOnly, overfull, WeightBounds.forAsset, Dict.get?_set]
  have hfind : (List.finRange 2).find? (fun i => ¬LongOnly overfull i) = none :=
    List.find?_eq_none.mpr fun i _ => by simpa using hlong i
  simp only [diversificationRefusal, hfind]
  rw [if_neg (by simp [overfull]), if_neg (by simp [overfull, ExposureRange.IsExact])]

theorem form_overfull (x : Fin 2 → ℝ) : form overfull.covariance x = x 0 ^ 2 + 100 * x 1 ^ 2 := by
  simp [form, overfull, dotProduct, Fin.sum_univ_two]
  ring

theorem posDef_overfull : overfull.covariance.PosDef := by
  refine Matrix.PosDef.of_dotProduct_mulVec_pos ?_ ?_
  · ext i j
    fin_cases i <;> fin_cases j <;> simp [overfull]
  · intro x hx
    have hform : star x ⬝ᵥ overfull.covariance *ᵥ x = x 0 ^ 2 + 100 * x 1 ^ 2 := form_overfull x
    rw [hform]
    by_contra hnot
    have h0 : x 0 = 0 := by nlinarith [sq_nonneg (x 0), sq_nonneg (x 1)]
    have h1 : x 1 = 0 := by nlinarith [sq_nonneg (x 0), sq_nonneg (x 1)]
    exact hx (funext (Fin.forall_fin_two.mpr ⟨h0, h1⟩))

theorem weightedVolatility_overfull (y : Fin 2 → ℝ) : weightedVolatility overfull y = y 0 + 10 * y 1 := by
  have hten : √(100 : ℝ) = 10 := by
    rw [show (100 : ℝ) = 10 ^ 2 by norm_num]
    exact Real.sqrt_sq (by norm_num)
  simp [weightedVolatility, overfull, Fin.sum_univ_two, hten]

theorem slack_overfull (y : Fin 2 → ℝ) :
    homogeneousSlack 1 rowA y = -2 * y 0 - 3 * y 1 ∧ homogeneousSlack 1 rowB y = -y 0 := by
  constructor
  · simp [homogeneousSlack, rowA, dot, Fin.sum_univ_two]
    ring
  · simp [homogeneousSlack, rowB, dot, Fin.sum_univ_two]

theorem program_overfull :
    (diversificationProgram (exactly fun _ => "0") overfull
      (overfull.compile (exactly fun _ => "0")) 1).constraints =
      [normalization (exactly fun _ => "0") overfull,
        ⟨"weight[A] >= 0", homogenizedTerms 1 rowA, 0, false⟩,
        ⟨"weight[B] >= 0", homogenizedTerms 1 rowB, 0, false⟩] := by
  have hsays {c : LinearConstraint 2 ℝ} (h : homogeneousSlack 1 c ![1, 0] ≠ 0) :
      homogenizedTerms 1 c ≠ [] := by
    intro hterms
    rw [← dot_homogenizedTerms, hterms] at h
    exact h rfl
  have hA := hsays (c := rowA) (by rw [(slack_overfull _).1]; norm_num)
  have hB := hsays (c := rowB) (by rw [(slack_overfull _).2]; norm_num)
  rw [diversificationProgram, net_filter, restRows_overfull]
  simp only [List.flatMap_cons, List.flatMap_nil, homogenize, if_neg hA, if_neg hB, List.append_nil]
  rfl

theorem reversedSolver_answers (k : ℕ) :
    (reversedSolver (diversificationProgram (exactly fun _ => "0") overfull
      (overfull.compile (exactly fun _ => "0")) 1) k).Answers
      (diversificationProgram (exactly fun _ => "0") overfull
        (overfull.compile (exactly fun _ => "0")) 1) := by
  have hnormal (y : Fin 2 → ℝ) :
      (normalization (exactly fun _ => "0") overfull).slack y = y 0 + 10 * y 1 - 1 := by
    rw [LinearConstraint.slack, ← weightedVolatility_overfull]
    exact congrArg (· - 1) (dot_indexed _ _)
  have hrow (label : String) (c : LinearConstraint 2 ℝ) (y : Fin 2 → ℝ) :
      (LinearConstraint.mk label (homogenizedTerms 1 c) 0 false).slack y = homogeneousSlack 1 c y := by
    rw [LinearConstraint.slack, dot_homogenizedTerms, sub_zero]
  have hslackA := fun y => (slack_overfull y).1
  have hslackB := fun y => (slack_overfull y).2
  refine .optimal ![-3 / 17, 2 / 17]
    ⟨fun k => if k = 0 then 409 / 289 else if k = 1 then 230 / 289 else 0, fun _ => 0⟩ rfl rfl
    ⟨?_, ?_, ?_, by simp [diversificationProgram], by simp [diversificationProgram], fun y => ?_⟩
    fun label => ?_
  · refine ⟨?_, by simp [diversificationProgram]⟩
    rw [program_overfull]
    simp only [List.forall_mem_cons, LinearConstraint.Holds, hrow, hslackA, hslackB, hnormal]
    norm_num [normalization]
  · rw [program_overfull]
    norm_num [normalization]
  · rw [program_overfull]
    simp only [List.zipIdx_cons, List.zipIdx_nil, List.forall_mem_cons, hrow, hslackA, hslackB,
      hnormal]
    norm_num
  · have hobjective (z : Fin 2 → ℝ) : (diversificationProgram (exactly fun _ => "0") overfull
        (overfull.compile (exactly fun _ => "0")) 1).objective z = 1 / 2 * (z 0 ^ 2 + 100 * z 1 ^ 2) := by
      simp only [QuadraticProgram.objective, diversificationProgram, value, one_smul, form_overfull,
        zero_dotProduct, add_zero]
    simp only [QuadraticProgram.lagrangian, program_overfull, hobjective, List.zipIdx_cons,
      List.zipIdx_nil, List.map_cons, List.map_nil, List.sum_cons, List.sum_nil, hrow, hslackA,
      hslackB, hnormal]
    norm_num [diversificationProgram]
    nlinarith [sq_nonneg (y 0 + 3 / 17), sq_nonneg (y 1 - 2 / 17)]
  · have hAB : "weight[A] >= 0" ≠ "weight[B] >= 0" := by decide
    have hA : "weight[A] >= 0" ≠ normalizationLabel := by decide
    have hB : "weight[B] >= 0" ≠ normalizationLabel := by decide
    simp only [QuadraticProgram.reported, program_overfull, List.zipIdx_cons, List.zipIdx_nil,
      List.map_cons, List.map_nil, List.sum_cons, List.sum_nil]
    simp only [reversedSolver, Dict.ofList, List.foldl_cons, List.foldl_nil, Dict.get?_set,
      Dict.get?_empty, normalization, diversificationProgram, List.map_nil, List.zipIdx_nil,
      List.sum_nil]
    by_cases h0 : normalizationLabel = label
    · norm_num [← h0, hA, hB, hA.symm]
    · by_cases h1 : "weight[A] >= 0" = label
      · norm_num [← h1, hAB.symm, hA.symm]
      · norm_num [h0, h1, Ne.symm h0, Ne.symm h1]

theorem overfull_outcome : ∃ o, maximumDiversification (exactly fun _ => "0") overfull reversedSolver
      (overfull.compile (exactly fun _ => "0")) = .ok o ∧ o.status = .optimal ∧
    o.weights = some fun i => 1 * ![-3 / 17, 2 / 17] i / ∑ j, (![-3 / 17, 2 / 17] : Fin 2 → ℝ) j := by
  have hgross : (overfull.constraints.maxGrossExposure.filter
    (· < overfull.constraints.netExposure.lower.getD 0)) = none := rfl
  simp only [maximumDiversification, accepted_overfull, hgross]
  exact ⟨_, rfl, rfl, rfl⟩

/-- **Bounds that cannot hold.**  Three and one are to be held of one in all; with the program solved
exactly the answer is optimal, at three and minus two. -/
theorem overfull_bounds_optimal :
    overfull.covariance.PosDef ∧
      (reversedSolver (diversificationProgram (exactly fun _ => "0") overfull
        (overfull.compile (exactly fun _ => "0")) 1) 0).Answers
        (diversificationProgram (exactly fun _ => "0") overfull
          (overfull.compile (exactly fun _ => "0")) 1) ∧
      ∃ o, maximumDiversification (exactly fun _ => "0") overfull reversedSolver
          (overfull.compile (exactly fun _ => "0")) = .ok o ∧ o.status = .optimal ∧
        (∃ w, o.weights = some w ∧ w 0 = 3 ∧ w 1 = -2) ∧
        (overfull.compile (exactly fun _ => "0")).portfolios = ∅ := by
  refine ⟨posDef_overfull, reversedSolver_answers 0, ?_⟩
  have hp : Budgeted overfull 1 := budgeted_of_accepted accepted_overfull
  obtain ⟨o, ho, hstatus, hweights⟩ := overfull_outcome
  refine ⟨o, ho, hstatus, ⟨_, hweights, ?_, ?_⟩, ?_⟩
  · norm_num [Fin.sum_univ_two]
  · norm_num [Fin.sum_univ_two]
  · refine Set.eq_empty_iff_forall_notMem.mpr fun w hw => ?_
    obtain ⟨hsum, hrows, -⟩ := (mem_portfolios hp).mp hw
    rw [restRows_overfull] at hrows
    have hA := (hrows rowA (by simp)).nonneg
    have hB := (hrows rowB (by simp)).nonneg
    simp only [LinearConstraint.slack, rowA, rowB, dot, List.map_cons, List.map_nil, List.sum_cons,
      List.sum_nil, one_mul, add_zero] at hA hB
    rw [Fin.sum_univ_two] at hsum
    linarith

theorem overfull_answer : ∃ o, maximumDiversification (exactly fun _ => "0") overfull reversedSolver
      (overfull.compile (exactly fun _ => "0")) = .ok o ∧
    (AnswersRatio (fun _ => "0") overfull o ∧ NamesOriginals (fun _ => "0") overfull o ↔
      (overfull.compile (exactly fun _ => "0")).portfolios.Nonempty ∨
        ∃ limit ∈ overfull.constraints.maxGrossExposure, limit < 1) := by
  obtain ⟨o, ho, -⟩ := overfull_outcome
  have hexplains : (reversedSolver (diversificationProgram (exactly fun _ => "0") overfull
      (overfull.compile (exactly fun _ => "0")) 1) 0).Explains
      (diversificationProgram (exactly fun _ => "0") overfull
        (overfull.compile (exactly fun _ => "0")) 1) := by
    intro h
    exact absurd h (by simp [reversedSolver])
  exact ⟨o, ho, (diversification_answers_iff (fun _ => "0") overfull posDef_overfull reversedSolver 1
    rfl (reversedSolver_answers 0) hexplains o ho).1⟩

end AlphaLab
