/-
  Outcomes of a construction, and the quadratic programs they come from.

  A `Solver` answers a program when some steps have been taken before.  `Outcome.LeastOver S f`: the
  outcome carries a point of `S` that is least for `f`, or says that `S` is empty.

  * `qp_leastOver`: one program by a solver that answers it;
  * `LeastOver.weights_eq`: what such an outcome carries is determined where `f` is strictly convex.
-/
import AlphaLab.Lib.Tradeoffs
import AlphaLab.Optimizer.Compile

namespace AlphaLab

open QuadraticForms

inductive ConstructionStatus
  | optimal | infeasible | iterationLimit | numericalFailure
deriving DecidableEq

def ConstructionStatus.ofSolve : SolveStatus → ConstructionStatus
  | .optimal => .optimal
  | .infeasible => .infeasible
  | .iterationLimit => .iterationLimit
  | .numericalFailure => .numericalFailure

/-- What a method found; a stationarity of `none` is infinite. -/
structure Outcome (n : ℕ) (K : Type) where
  status : ConstructionStatus
  weights : Option (Fin n → K)
  iterations : ℕ
  binding : List String
  conflict : List String
  stationarity : Option K
  effectiveRiskAversion : Option K
  worstCaseReturn : Option K

/-- A program's answer when so many steps have been taken before. -/
abbrev Solver (n : ℕ) (K : Type) := QuadraticProgram n K → ℕ → QuadraticSolution n K

variable {n : ℕ} {K : Type}

def Outcome.outOfSteps (iterations : ℕ) : Outcome n K :=
  ⟨.iterationLimit, none, iterations, [], [], none, none, none⟩

def Outcome.solved (o : Outcome n K) : Option (Fin n → K) :=
  if o.status = .optimal then o.weights else none

/-- Two facets of one absolute-sum limit can be active together; the limit is reported once. -/
def fromSolution (s : QuadraticSolution n K) (iterations : ℕ) : Outcome n K where
  status := .ofSolve s.status
  weights := s.x
  iterations := iterations + s.iterations
  binding := s.active.eraseDups
  conflict := s.conflict.eraseDups
  stationarity := some s.stationarity
  effectiveRiskAversion := none
  worstCaseReturn := none

section
variable [Field K] [LinearOrder K]

/-- The program `1/2 scale x'Cx + a'x` under the compiled constraints. -/
def ConstructionProblem.program (p : ConstructionProblem n K) (compiled : Compiled n K) (scale : K)
    (linear : Fin n → K) : QuadraticProgram n K :=
  ⟨scale • p.covariance, linear, compiled.linear, compiled.absolute⟩

def qp (solve : Solver n K) (p : ConstructionProblem n K) (compiled : Compiled n K) (scale : K)
    (linear : Fin n → K) (iterations : ℕ) : Outcome n K :=
  fromSolution (solve (p.program compiled scale linear) iterations) iterations

def Compiled.portfolios (compiled : Compiled n K) : Set (Fin n → K) :=
  feasible compiled.linear compiled.absolute

end

/-! ## Outcomes that are least -/

/-- The outcome carries a point of `S` least for `f`, or says that there is no point in `S`. -/
inductive Outcome.LeastOver [Preorder K] (S : Set (Fin n → K)) (f : (Fin n → K) → K)
    (o : Outcome n K) : Prop
  | optimal (w : Fin n → K) (status : o.status = .optimal) (weights : o.weights = some w)
      (mem : w ∈ S) (least : IsMinOn f S w)
  | infeasible (status : o.status = .infeasible) (weights : o.weights = none) (empty : S = ∅)

namespace Outcome

variable {S : Set (Fin n → ℝ)} {f : (Fin n → ℝ) → ℝ} {o o' : Outcome n ℝ}

theorem LeastOver.solved_iff (h : o.LeastOver S f) {w : Fin n → ℝ} :
    o.solved = some w ↔ o.weights = some w := by
  cases h with
  | optimal v status weights _ _ => simp [solved, status]
  | infeasible status weights _ => simp [solved, weights]

theorem LeastOver.of_solved (h : o.LeastOver S f) {w : Fin n → ℝ} (hw : o.solved = some w) :
    o.status = .optimal ∧ w ∈ S ∧ IsMinOn f S w := by
  have hweights := h.solved_iff.mp hw
  cases h with
  | optimal v status weights mem least =>
    obtain rfl := Option.some.inj (weights.symm.trans hweights)
    exact ⟨status, mem, least⟩
  | infeasible status weights _ => simp [weights] at hweights

theorem LeastOver.of_unsolved (h : o.LeastOver S f) (hw : o.solved = none) :
    o.status = .infeasible ∧ S = ∅ := by
  cases h with
  | optimal v status weights _ _ => simp [solved, status, weights] at hw
  | infeasible status _ empty => exact ⟨status, empty⟩

/-- **One minimum.**  A strictly convex objective has one least point over a convex set, so outcomes
that are least for it carry the same weights. -/
theorem LeastOver.weights_eq (h : o.LeastOver S f) (h' : o'.LeastOver S f) (hS : Convex ℝ S)
    (hf : StrictConvexOn ℝ Set.univ f) : o.weights = o'.weights := by
  cases h with
  | optimal w _ weights mem least =>
    cases h' with
    | optimal w' _ weights' mem' least' =>
      have hSf : StrictConvexOn ℝ S f := hf.subset (Set.subset_univ S) hS
      rw [weights, weights', hSf.eq_of_isMinOn least least' mem mem']
    | infeasible _ _ empty => exact absurd (empty ▸ mem) (Set.notMem_empty w)
  | infeasible _ weights empty =>
    cases h' with
    | optimal w' _ _ mem' _ => exact absurd (empty ▸ mem') (Set.notMem_empty w')
    | infeasible _ weights' _ => rw [weights, weights']

end Outcome

theorem qp_leastOver {solve : Solver n ℝ} {p : ConstructionProblem n ℝ} {compiled : Compiled n ℝ}
    {scale : ℝ} {linear : Fin n → ℝ} {iterations : ℕ}
    (hsolve : (solve (p.program compiled scale linear) iterations).Answers
      (p.program compiled scale linear)) :
    (qp solve p compiled scale linear iterations).LeastOver compiled.portfolios
      (Tradeoffs.weighed (form p.covariance) (fun w => ∑ i, linear i * w i) scale) := by
  have hobjective : (p.program compiled scale linear).objective =
      Tradeoffs.weighed (form p.covariance) (fun w => ∑ i, linear i * w i) scale := by
    funext w
    simp only [QuadraticProgram.objective, ConstructionProblem.program, value, form_scale,
      Tradeoffs.weighed, dotProduct]
    ring
  cases hsolve with
  | optimal x m status point certified _ =>
    refine .optimal x (by simp [qp, fromSolution, status, ConstructionStatus.ofSolve]) point
      certified.meets ?_
    rw [← hobjective]
    exact certified.isMinOn
  | infeasible status point inconsistent =>
    exact .infeasible (by simp [qp, fromSolution, status, ConstructionStatus.ofSolve]) point
      inconsistent

end AlphaLab
