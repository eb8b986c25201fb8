/-
  The constraints of a portfolio, and the rows they are compiled into.

  `compile N p` writes out every constraint of the problem `p` as linear constraints and
  absolute-sum limits over the weights.

  * `compile_row`: a compiled row is one of a range;
  * `compile_label`, `absolute_label`: its label ends in the number it compares with.
-/
import AlphaLab.Optimizer.Programs

namespace AlphaLab

variable {n : ℕ} {K : Type}

/-! ## Settings and constraints -/

structure SolverSettings (K : Type) where
  feasibilityTolerance : K
  convergenceTolerance : K
  maxIterations : ℕ

/-- A closed interval, either end of which may be open. -/
structure ExposureRange (K : Type) where
  lower : Option K
  upper : Option K

structure WeightBounds (K : Type) where
  lower : Option K
  upper : Option K
  overrides : Dict String (Option K × Option K)

def WeightBounds.forAsset (b : WeightBounds K) (asset : String) : Option K × Option K :=
  (b.overrides.get? asset).getD (b.lower, b.upper)

/-- Which bucket each asset falls in along one dimension, whose name is an identifier. -/
structure AssetClassification where
  dimension : String
  labels : Dict String String
  identifier : ' ' ∉ dimension.toList

/-- `lower <= sum of weights classified as label <= upper`. -/
structure GroupBound (K : Type) where
  classification : AssetClassification
  label : String
  lower : Option K
  upper : Option K

def GroupBound.name (g : GroupBound K) : String :=
  g.classification.dimension ++ "[" ++ g.label ++ "]"

/-- `lower <= sum_i w_i * beta_i,factor <= upper`, with the factor's column of the loadings. -/
structure FactorBound (K : Type) where
  factor : String
  loadings : Dict String K
  lower : Option K
  upper : Option K

def FactorBound.name (f : FactorBound K) : String := "factor[" ++ f.factor ++ "]"

/-- `sum_i |w_i - current_i| <= maximum`. -/
structure TurnoverLimit (K : Type) where
  current : Dict String K
  maximum : K

/-- `|w_i| * capital <= maximum_i`. -/
structure NotionalLimits (K : Type) where
  capital : K
  maximumNotional : Dict String K

structure ConstraintSet (K : Type) where
  netExposure : ExposureRange K
  bounds : WeightBounds K
  maxAbsWeight : Option K
  maxGrossExposure : Option K
  groups : List (GroupBound K)
  factors : List (FactorBound K)
  turnover : Option (TurnoverLimit K)
  notionalLimits : Option (NotionalLimits K)
  maxVolatility : Option K

/-- The assets weighed, their covariance, and what the weights are solved under. -/
structure ConstructionProblem (n : ℕ) (K : Type) where
  universe_ : Fin n → String
  distinct : Function.Injective universe_
  covariance : Matrix (Fin n) (Fin n) K
  constraints : ConstraintSet K
  settings : SolverSettings K

/-! ## Compilation -/

structure Compiled (n : ℕ) (K : Type) where
  linear : List (LinearConstraint n K)
  absolute : List (AbsoluteSumLimit n K)
  unmet : List String

section
variable [Field K] [LinearOrder K] (N : Arithmetic K)

def ExposureRange.IsExact (r : ExposureRange K) : Prop := r.lower.isSome ∧ r.lower = r.upper

instance (r : ExposureRange K) : Decidable r.IsExact :=
  inferInstanceAs (Decidable (_ ∧ _))

/-- Whether `value` lies in the range, to within `tolerance`. -/
def ExposureRange.Contains (r : ExposureRange K) (value tolerance : K) : Prop :=
  (∀ l ∈ r.lower, l - tolerance ≤ value) ∧ ∀ u ∈ r.upper, value ≤ u + tolerance

instance (r : ExposureRange K) (value tolerance : K) : Decidable (r.Contains value tolerance) :=
  inferInstanceAs (Decidable ((∀ l ∈ r.lower, _) ∧ ∀ u ∈ r.upper, _))

/-- `maximum / capital` for one asset. -/
def NotionalLimits.weightLimit (l : NotionalLimits K) (asset : String) : K :=
  (l.maximumNotional.get? asset).getD 0 / l.capital

/-- `lower <= terms.x <= upper` as one equality or up to two inequalities. -/
def interval (label : String) (terms : List (Fin n × K)) (lower upper : Option K) :
    List (LinearConstraint n K) :=
  if lower.isSome ∧ lower = upper then
    lower.toList.map fun l => ⟨label ++ " = " ++ N.repr l, terms, l, true⟩
  else
    (lower.toList.map fun l => ⟨label ++ " >= " ++ N.repr l, terms, l, false⟩) ++
      upper.toList.map fun u =>
        ⟨label ++ " <= " ++ N.repr u, terms.map fun t => (t.1, -t.2), -u, false⟩

namespace ConstructionProblem

variable (p : ConstructionProblem n K)

def everyone : List (Fin n × K) := (List.finRange n).map fun i => (i, 1)

/-- The rows of one asset's range, under `name[asset]`. -/
def assetInterval (name : String) (i : Fin n) (lower upper : Option K) :
    List (LinearConstraint n K) :=
  interval N (name ++ "[" ++ p.universe_ i ++ "]") [(i, 1)] lower upper

def position (asset : String) : Option (Fin n) :=
  (List.finRange n).find? fun i => p.universe_ i = asset

def groupTerms (g : GroupBound K) : List (Fin n × K) :=
  ((List.finRange n).filter fun i =>
    g.classification.labels.get? (p.universe_ i) = some g.label).map fun i => (i, 1)

def factorTerms (f : FactorBound K) : List (Fin n × K) :=
  ((List.finRange n).map fun i => (i, (f.loadings.get? (p.universe_ i)).getD 0)).filter
    fun t => t.2 ≠ 0

def netRows : List (LinearConstraint n K) :=
  interval N "net exposure" everyone p.constraints.netExposure.lower p.constraints.netExposure.upper

def weightRows : List (LinearConstraint n K) :=
  (List.finRange n).flatMap fun i =>
    p.assetInterval N "weight" i (p.constraints.bounds.forAsset (p.universe_ i)).1
      (p.constraints.bounds.forAsset (p.universe_ i)).2

def concentrationRows : List (LinearConstraint n K) :=
  p.constraints.maxAbsWeight.toList.flatMap fun cap => (List.finRange n).flatMap fun i =>
    p.assetInterval N "concentration" i (some (-cap)) (some cap)

def notionalRows : List (LinearConstraint n K) :=
  p.constraints.notionalLimits.toList.flatMap fun limits =>
    (limits.maximumNotional.keys.filterMap p.position).flatMap fun i =>
      p.assetInterval N "notional" i (some (-limits.weightLimit (p.universe_ i)))
        (some (limits.weightLimit (p.universe_ i)))

def groupRows : List (LinearConstraint n K) :=
  p.constraints.groups.flatMap fun g =>
    if p.groupTerms g = [] then [] else interval N g.name (p.groupTerms g) g.lower g.upper

def factorRows : List (LinearConstraint n K) :=
  p.constraints.factors.flatMap fun f =>
    if p.factorTerms f = [] then [] else interval N f.name (p.factorTerms f) f.lower f.upper

def unmet : List String :=
  ((p.constraints.groups.filter fun g =>
      p.groupTerms g = [] ∧ ¬(ExposureRange.mk g.lower g.upper).Contains 0 0).map fun g =>
        g.name ++ ": no asset in the universe is classified '" ++ g.label ++ "'") ++
    (p.constraints.factors.filter fun f =>
      p.factorTerms f = [] ∧ ¬(ExposureRange.mk f.lower f.upper).Contains 0 0).map fun f =>
        f.name ++ ": every asset in the universe has zero loading"

def grossLabel (limit : K) : String := "gross exposure <= " ++ N.repr limit

def absoluteLimits : List (AbsoluteSumLimit n K) :=
  (p.constraints.maxGrossExposure.toList.map fun limit =>
      ⟨grossLabel N limit, (List.finRange n).map fun i => (i, 0), limit⟩) ++
    p.constraints.turnover.toList.map fun t =>
      ⟨"turnover <= " ++ N.repr t.maximum,
        (List.finRange n).map fun i => (i, (t.current.get? (p.universe_ i)).getD 0), t.maximum⟩

/-- Every constraint as linear constraints and absolute-sum limits over the weights. -/
def compile : Compiled n K where
  linear := p.netRows N ++ p.weightRows N ++ p.concentrationRows N ++ p.notionalRows N ++
    p.groupRows N ++ p.factorRows N
  absolute := p.absoluteLimits N
  unmet := p.unmet

theorem interval_label {label : String} {terms : List (Fin n × K)} {lower upper : Option K}
    {c : LinearConstraint n K} (hc : c ∈ interval N label terms lower upper) :
    ∃ relation x, c.label = label ++ relation ++ N.repr x := by
  simp only [interval] at hc
  split_ifs at hc
  · obtain ⟨l, -, rfl⟩ := List.mem_map.mp hc
    exact ⟨" = ", l, rfl⟩
  · rcases List.mem_append.mp hc with hc | hc
    · obtain ⟨l, -, rfl⟩ := List.mem_map.mp hc
      exact ⟨" >= ", l, rfl⟩
    · obtain ⟨u, -, rfl⟩ := List.mem_map.mp hc
      exact ⟨" <= ", u, rfl⟩

theorem compile_row {c : LinearConstraint n K} (hc : c ∈ (p.compile N).linear) :
    ∃ label terms lower upper, c ∈ interval N label terms lower upper := by
  simp only [compile, netRows, weightRows, concentrationRows, notionalRows, groupRows, factorRows,
    assetInterval, List.mem_append, List.mem_flatMap] at hc
  rcases hc with ((((hc | ⟨i, -, hc⟩) | ⟨cap, -, i, -, hc⟩) | ⟨l, -, i, -, hc⟩) | ⟨g, -, hc⟩) |
    ⟨f, -, hc⟩
  · exact ⟨_, _, _, _, hc⟩
  · exact ⟨_, _, _, _, hc⟩
  · exact ⟨_, _, _, _, hc⟩
  · exact ⟨_, _, _, _, hc⟩
  · split_ifs at hc
    · exact absurd hc List.not_mem_nil
    · exact ⟨_, _, _, _, hc⟩
  · split_ifs at hc
    · exact absurd hc List.not_mem_nil
    · exact ⟨_, _, _, _, hc⟩

theorem compile_label {c : LinearConstraint n K} (hc : c ∈ (p.compile N).linear) :
    ∃ before x, c.label = before ++ N.repr x := by
  obtain ⟨label, terms, lower, upper, hc⟩ := p.compile_row N hc
  obtain ⟨relation, x, hlabel⟩ := interval_label N hc
  exact ⟨label ++ relation, x, hlabel⟩

theorem absolute_label {f : AbsoluteSumLimit n K} (hf : f ∈ (p.compile N).absolute) :
    ∃ before x, f.label = before ++ N.repr x := by
  rcases List.mem_append.mp hf with hf | hf
  · obtain ⟨limit, -, rfl⟩ := List.mem_map.mp hf
    exact ⟨_, limit, rfl⟩
  · obtain ⟨t, -, rfl⟩ := List.mem_map.mp hf
    exact ⟨_, t.maximum, rfl⟩

end ConstructionProblem
end

end AlphaLab
