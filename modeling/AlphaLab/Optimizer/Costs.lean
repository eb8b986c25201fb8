/-
  Linear trading costs, one orthant at a time.

  The cost `sum_i c_i |x_i - w0_i|` is linear where every charged asset is held to one side of its
  current weight.  `qpWithCosts` solves one such orthant after another, crossing where the multiplier
  of a side says that trading the other way pays.

  `orthant`, `orthantStep` and `orthantLoop` are the method; the walk it makes is kept in a `Walk`.
-/
import AlphaLab.Lib.SortBy
import AlphaLab.Lib.Positions
import AlphaLab.Optimizer.Outcomes
import Mathlib.Data.Sign.Defs
import Mathlib.Data.Fintype.Pi

namespace AlphaLab

open QuadraticForms Fallible Positions

attribute [local instance] Numerals.two

variable {n : ℕ} {K : Type}

structure LinearCosts (n : ℕ) (K : Type) where
  current : Fin n → K
  rates : Fin n → K

structure SideText where
  text : String → String
  injective : Function.Injective text
  closes : ∀ asset, (text asset).toList.getLast? = some ')'

theorem injective_around (before after : String) :
    Function.Injective fun asset : String => before ++ asset ++ after := by
  intro a b h
  have hlists := congrArg String.toList h
  simp only [String.toList_append] at hlists
  exact String.toList_inj.mp (List.append_cancel_left (List.append_cancel_right hlists))

theorem getLast?_around (before asset : String) {after : String} (h : after.toList ≠ []) :
    (before ++ asset ++ after).toList.getLast? = after.toList.getLast? := by
  simp only [String.toList_append]
  rw [List.getLast?_append_of_ne_nil _ h]

def noTrade : SideText where
  text asset := "no trade in " ++ asset ++ " (not worth its cost)"
  injective := injective_around _ _
  closes asset := (getLast?_around _ asset (by decide)).trans (by decide)

/-! ## The method -/

/-- A side of its current weight for every charged asset. -/
abbrev Signs (n : ℕ) := Fin n → SignType

structure Visit (n : ℕ) (K : Type) where
  signs : Signs n
  weights : Fin n → K

/-- Where the walk stands: the side of each asset, the orthants solved, the lowest value. -/
structure Walk (n : ℕ) (K : Type) where
  signs : Signs n
  visited : List (Visit n K)
  lowest : Option K
  used : ℕ

section
variable [Field K] [LinearOrder K] (p : ConstructionProblem n K) (compiled : Compiled n K)
  (side : SideText) (costs : LinearCosts n K) (scale : K) (linear : Fin n → K)

def LinearCosts.charged : List (Fin n) := (List.finRange n).filter fun i => 0 < costs.rates i

def sideLabel (i : Fin n) : String := side.text (p.universe_ i)

def sideConstraint (signs : Signs n) (i : Fin n) : LinearConstraint n K :=
  ⟨sideLabel p side i, [(i, signs i)], signs i * costs.current i, false⟩

def orthant (signs : Signs n) : QuadraticProgram n K where
  hessian := scale • p.covariance
  linear i := linear i + costs.rates i * signs i
  constraints := compiled.linear ++ costs.charged.map (sideConstraint p side costs signs)
  absoluteSums := compiled.absolute

/-- `1/2 x'Gx + a'x + sum_i c_i |x_i - w0_i|`, `G = scale * C`. -/
def costedObjective (x : Fin n → K) : K :=
  value (scale • p.covariance) linear x + ∑ i, costs.rates i * |x i - costs.current i|

/-- How far the multiplier of an asset's side exceeds what its cost accounts for. -/
def excessAt (s : QuadraticSolution n K) (i : Fin n) : K :=
  (s.multipliers.get? (sideLabel p side i)).getD 0 - 2 * costs.rates i

/-- The sides that it pays to cross, the largest excess first. -/
def excesses (s : QuadraticSolution n K) : List (Fin n) :=
  sortBy (fun i => toLex (-excessAt p side costs s i, i)) (costs.charged.filter fun i =>
    p.settings.convergenceTolerance * max 1 (2 * costs.rates i) < excessAt p side costs s i)

def flip (signs : Signs n) (i : Fin n) : Signs n := Function.update signs i (-signs i)

def Rose (lowest : Option K) (value : K) : Prop :=
  ∃ l ∈ lowest, l + p.settings.convergenceTolerance * max 1 |l| < value

instance (lowest : Option K) (value : K) : Decidable (Rose p lowest value) :=
  match lowest with
  | none => .isFalse (by simp [Rose])
  | some l => decidable_of_iff (l + p.settings.convergenceTolerance * max 1 |l| < value)
      (by simp [Rose])

def uncertified (o : Outcome n K) : Outcome n K :=
  ⟨.numericalFailure, none, o.iterations, [], [], o.stationarity, none, none⟩

def Walk.solvedAt (w : Walk n K) (x : Fin n → K) (value : K) (used : ℕ) : Walk n K where
  signs := w.signs
  visited := w.visited ++ [⟨w.signs, x⟩]
  lowest := some (w.lowest.elim value fun l => min l value)
  used := used

variable (solve : Solver n K)

def orthantStep (w : Walk n K) : Walk n K × Option (Outcome n K) :=
  let solution := solve (orthant p compiled side costs scale linear w.signs) w.used
  let outcome := fromSolution solution w.used
  match outcome.solved with
  | none => ({ w with used := outcome.iterations }, some outcome)
  | some x =>
    let value := costedObjective p costs scale linear x
    let walk := w.solvedAt x value outcome.iterations
    if Rose p w.lowest value then (walk, some (uncertified outcome))
    else if excesses p side costs solution = [] then (walk, some outcome)
    else
      match (excesses p side costs solution).find? fun i =>
          flip w.signs i ∉ walk.visited.map Visit.signs with
      | none => (walk, some (uncertified outcome))
      | some i =>
        if p.settings.maxIterations ≤ outcome.iterations then
          (walk, some (.outOfSteps outcome.iterations))
        else ({ walk with signs := flip w.signs i }, none)

def orthantLoop : ℕ → Walk n K → Option (Walk n K × Outcome n K)
  | 0, _ => none
  | fuel + 1, w =>
    match orthantStep p compiled side costs scale linear solve w with
    | (w', some outcome) => some (w', outcome)
    | (w', none) => orthantLoop fuel w'

/-- The side of its current weight each charged asset has without costs. -/
def startSigns (weights : Fin n → K) : Signs n := fun i =>
  if 0 < costs.rates i then if costs.current i ≤ weights i then 1 else -1 else 0

/-- Minimize `1/2 x'Gx + a'x + sum_i c_i |x_i - w0_i|`, one orthant at a time.  The loop is let run
once for every way to choose the sides. -/
def qpWithCosts (iterations : ℕ) : Option (Walk n K × Outcome n K) :=
  let base := qp solve p compiled scale linear iterations
  match base.solved with
  | none => some (⟨0, [], none, base.iterations⟩, base)
  | some weights =>
    if costs.charged = [] then some (⟨0, [], none, base.iterations⟩, base)
    else orthantLoop p compiled side costs scale linear solve (Fintype.card (Signs n))
      ⟨startSigns costs weights, [], none, base.iterations⟩

end

end AlphaLab
