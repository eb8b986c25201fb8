/-
  Maximum diversification, by a change of variables.

  With `y = w / (sigma' w)` the ratio `sigma' w / sqrt(w' C w)` is largest where `y' C y` is least over
  `sigma' y = 1`, and a row `terms.w >= b` of a portfolio with net exposure `B` reads
  `B terms.y - b 1'y >= 0`.

  * `maximumDiversification` is the method, over the rows that are not labelled as the net exposure;
  * `homogenize_holds`: what a homogenized row asks of `y`.
-/
import AlphaLab.Optimizer.Cap

namespace AlphaLab

open QuadraticForms

variable {n : ℕ} {K : Type}

/-! ## The method -/

/-- `label.startswith(head)` -/
def startsWith (label head : String) : Bool := head.toList.isPrefixOf label.toList

inductive DiversificationRefusal
  | notLongOnly (asset : String) | notInvariant | noBudget

section
variable [Field K] [LinearOrder K] (N : Arithmetic K) (p : ConstructionProblem n K)

/-- `sigma_i`, the volatility the covariance implies. -/
def assetVolatility (i : Fin n) : K := N.sqrt (p.covariance i i)

/-- Whether an asset is bounded below by zero or more. -/
def LongOnly (i : Fin n) : Prop :=
  ∃ l ∈ (p.constraints.bounds.forAsset (p.universe_ i)).1, 0 ≤ l

instance (i : Fin n) : Decidable (LongOnly p i) :=
  inferInstanceAs (Decidable (∃ l ∈ (p.constraints.bounds.forAsset (p.universe_ i)).1, 0 ≤ l))

def diversificationRefusal : Option DiversificationRefusal :=
  match (List.finRange n).find? fun i => ¬LongOnly p i with
  | some i => some (.notLongOnly (p.universe_ i))
  | none =>
    if p.constraints.turnover.isSome ∨ p.constraints.maxVolatility.isSome then some .notInvariant
    else if ¬p.constraints.netExposure.IsExact ∨ ¬0 < p.constraints.netExposure.lower.getD 0 then
      some .noBudget
    else none

def normalizationLabel : String := "diversification normalization: sigma' y = 1"

/-- `sigma' y = 1`. -/
def normalization : LinearConstraint n K :=
  ⟨normalizationLabel, (List.finRange n).map fun i => (i, assetVolatility N p i), 1, true⟩

/-- The coefficient of `y_i` in `B terms.y - b 1'y`. -/
def homogenizedCoefficient (budget : K) (c : LinearConstraint n K) (i : Fin n) : K :=
  ((c.terms.filter (·.1 = i)).map fun t => budget * t.2).sum - c.bound

def homogenizedTerms (budget : K) (c : LinearConstraint n K) : List (Fin n × K) :=
  ((List.finRange n).map fun i => (i, homogenizedCoefficient budget c i)).filter (·.2 ≠ 0)

/-- A row `terms.w (= | >=) b` as a row over `y`; none where it says nothing. -/
def homogenize (budget : K) (c : LinearConstraint n K) : List (LinearConstraint n K) :=
  if homogenizedTerms budget c = [] then []
  else [⟨c.label, homogenizedTerms budget c, 0, c.equality⟩]

/-- The program over `y`. -/
def diversificationProgram (compiled : Compiled n K) (budget : K) : QuadraticProgram n K where
  hessian := (1 : K) • p.covariance
  linear := 0
  constraints := normalization N p ::
    (compiled.linear.filter fun c => !startsWith c.label "net exposure").flatMap (homogenize budget)
  absoluteSums := []

def maximumDiversification (solve : Solver n K) (compiled : Compiled n K) :
    Except DiversificationRefusal (Outcome n K) :=
  match diversificationRefusal p with
  | some refusal => .error refusal
  | none =>
    let budget := p.constraints.netExposure.lower.getD 0
    match p.constraints.maxGrossExposure.filter (· < budget) with
    | some limit => .ok ⟨.infeasible, none, 0, [], ["net exposure", ConstructionProblem.grossLabel N limit],
        some 0, none, none⟩
    | none =>
      let solution := solve (diversificationProgram N p compiled budget) 0
      let outcome := fromSolution solution 0
      match solution.x with
      | none => .ok outcome
      | some y => .ok { outcome with
          weights := some fun i => budget * y i / ∑ j, y j
          binding := outcome.binding.filter fun label => !startsWith label "diversification"
          conflict := [] }

end

/-! ## Homogenized rows -/

section
variable [Field K]

variable (terms : List (Fin n × K)) (x : Fin n → K)

theorem dot_eq_sum : dot terms x = ∑ i, ((terms.filter (·.1 = i)).map Prod.snd).sum * x i := by
  induction terms with
  | nil => simp [dot]
  | cons t terms ih =>
    have hhead : ∀ i, (((t :: terms).filter (·.1 = i)).map Prod.snd).sum * x i =
        (if t.1 = i then t.2 * x i else 0) + ((terms.filter (·.1 = i)).map Prod.snd).sum * x i := by
      intro i
      by_cases h : t.1 = i
      · simp [h, add_mul]
      · simp [h]
    simp only [hhead, Finset.sum_add_distrib, Finset.sum_ite_eq Finset.univ t.1, Finset.mem_univ,
      if_true, ← ih]
    simp [dot]

theorem dot_indexed (f x : Fin n → K) :
    dot ((List.finRange n).map fun i => (i, f i)) x = ∑ i, f i * x i := by
  simp only [dot, List.map_map, Fin.sum_univ_def]
  rfl

theorem dot_filter_ne_zero [DecidableEq K] : dot (terms.filter (·.2 ≠ 0)) x = dot terms x := by
  induction terms with
  | nil => rfl
  | cons t terms ih =>
    by_cases h : t.2 = 0
    · rw [List.filter_cons_of_neg (by simpa using h), ih]
      simp [dot, h]
    · rw [List.filter_cons_of_pos (by simpa using h)]
      simp only [dot, List.map_cons, List.sum_cons] at ih ⊢
      rw [ih]

end

section
variable [Field K] [LinearOrder K] {budget : K} {c : LinearConstraint n K} {y : Fin n → K}

/-- `B terms.y - b 1'y`. -/
def homogeneousSlack (budget : K) (c : LinearConstraint n K) (y : Fin n → K) : K :=
  budget * dot c.terms y - c.bound * ∑ i, y i

theorem dot_homogenizedTerms : dot (homogenizedTerms budget c) y = homogeneousSlack budget c y := by
  rw [homogenizedTerms, dot_filter_ne_zero, dot_indexed, homogeneousSlack, dot_eq_sum,
    Finset.mul_sum, Finset.mul_sum, ← Finset.sum_sub_distrib]
  refine Finset.sum_congr rfl fun i _ => ?_
  rw [homogenizedCoefficient, List.sum_map_mul_left, sub_mul, mul_assoc]

/-- **A homogenized row.**  It asks of `y` what the row asks of a portfolio proportional to it. -/
theorem homogenize_holds : (∀ h ∈ homogenize budget c, h.Holds y) ↔
    if c.equality then homogeneousSlack budget c y = 0 else 0 ≤ homogeneousSlack budget c y := by
  by_cases hterms : homogenizedTerms budget c = []
  · have hzero : homogeneousSlack budget c y = 0 := by
      rw [← dot_homogenizedTerms, hterms]
      rfl
    simp [homogenize, hterms, hzero]
  · simp only [homogenize, if_neg hterms, List.forall_mem_singleton, LinearConstraint.Holds,
      LinearConstraint.slack, dot_homogenizedTerms, sub_zero]

end

end AlphaLab
