/-
  Quadratic programs, and what it is to answer one.

  Numbers are those of an ordered field; `Arithmetic` gives its square root and how a number is
  written.

  * `LinearConstraint`, `AbsoluteSumLimit`, `QuadraticProgram`, `QuadraticSolution` are the
    solver's data;
  * `KuhnTucker p x m`: `x` meets the constraints of `p`, and `m` are multipliers for it;
  * `KuhnTucker.isMinOn`: then `x` is least;
  * `QuadraticSolution.Answers`: an answer that is right, by such multipliers or because nothing
    meets the constraints.
-/
import AlphaLab.Lib.Dict
import AlphaLab.Lib.QuadraticForms

namespace AlphaLab

open Matrix QuadraticForms

variable {n : ℕ} {K : Type}

structure Arithmetic (K : Type) where
  sqrt : K → K
  repr : K → String

/-- `sum_k terms_k * x_k (= | >=) bound`, stored sparsely. -/
structure LinearConstraint (n : ℕ) (K : Type) where
  label : String
  terms : List (Fin n × K)
  bound : K
  equality : Bool

/-- `sum_k |x[indices_k] - centers_k| <= limit`: an index with its center each. -/
structure AbsoluteSumLimit (n : ℕ) (K : Type) where
  label : String
  centers : List (Fin n × K)
  limit : K

/-- `minimize 1/2 x'Gx + a'x` subject to linear constraints and absolute-sum limits. -/
structure QuadraticProgram (n : ℕ) (K : Type) where
  hessian : Matrix (Fin n) (Fin n) K
  linear : Fin n → K
  constraints : List (LinearConstraint n K)
  absoluteSums : List (AbsoluteSumLimit n K)

inductive SolveStatus
  | optimal | infeasible | iterationLimit | numericalFailure

structure QuadraticSolution (n : ℕ) (K : Type) where
  status : SolveStatus
  x : Option (Fin n → K)
  objective : Option K
  iterations : ℕ
  active : List String
  multipliers : Dict String K
  conflict : List String
  maxViolation : K
  stationarity : K
  pivotRatio : K

/-! ## What a point satisfies -/

variable [Field K]

def dot (terms : List (Fin n × K)) (x : Fin n → K) : K := (terms.map fun t => t.2 * x t.1).sum

theorem dot_combine (terms : List (Fin n × K)) (s t : K) (x y : Fin n → K) :
    dot terms (s • x + t • y) = s * dot terms x + t * dot terms y := by
  simp only [dot, ← List.sum_map_mul_left, ← List.sum_map_add]
  refine congrArg List.sum (List.map_congr_left ?_)
  rintro ⟨i, c⟩ -
  simp only [Pi.add_apply, Pi.smul_apply, smul_eq_mul]
  ring

variable [LinearOrder K]

def absoluteSum (family : AbsoluteSumLimit n K) (x : Fin n → K) : K :=
  (family.centers.map fun c => |x c.1 - c.2|).sum

namespace LinearConstraint

variable (c : LinearConstraint n K)

def slack (x : Fin n → K) : K := dot c.terms x - c.bound

def Holds (x : Fin n → K) : Prop := if c.equality then c.slack x = 0 else 0 ≤ c.slack x

end LinearConstraint

namespace AbsoluteSumLimit

variable (f : AbsoluteSumLimit n K)

def excess (x : Fin n → K) : K := absoluteSum f x - f.limit

def Holds (x : Fin n → K) : Prop := f.excess x ≤ 0

end AbsoluteSumLimit

def feasible (constraints : List (LinearConstraint n K))
    (absoluteSums : List (AbsoluteSumLimit n K)) : Set (Fin n → K) :=
  {x | (∀ c ∈ constraints, c.Holds x) ∧ ∀ f ∈ absoluteSums, f.Holds x}

theorem LinearConstraint.Holds.nonneg {c : LinearConstraint n K} {x : Fin n → K} (h : c.Holds x) :
    0 ≤ c.slack x := by
  cases he : c.equality with
  | true => exact (by simpa [Holds, he] using h : c.slack x = 0).ge
  | false => simpa [Holds, he] using h

variable [IsStrictOrderedRing K]

theorem LinearConstraint.Holds.mul_slack_nonneg {c : LinearConstraint n K} {x : Fin n → K} {m : K}
    (h : c.Holds x) (hm : c.equality = false → 0 ≤ m) : 0 ≤ m * c.slack x := by
  cases he : c.equality with
  | true =>
    rw [(by simpa [Holds, he] using h : c.slack x = 0), mul_zero]
  | false => exact mul_nonneg (hm he) h.nonneg

theorem LinearConstraint.slack_combine (c : LinearConstraint n K) {s t : K} (hsum : s + t = 1)
    (x y : Fin n → K) : c.slack (s • x + t • y) = s * c.slack x + t * c.slack y := by
  simp only [slack, dot_combine]
  linear_combination c.bound * hsum

theorem AbsoluteSumLimit.excess_combine (f : AbsoluteSumLimit n K) {s t : K} (hs : 0 ≤ s)
    (ht : 0 ≤ t) (hsum : s + t = 1) (x y : Fin n → K) :
    f.excess (s • x + t • y) ≤ s * f.excess x + t * f.excess y := by
  have hsums : absoluteSum f (s • x + t • y) ≤ s * absoluteSum f x + t * absoluteSum f y := by
    simp only [absoluteSum, ← List.sum_map_mul_left, ← List.sum_map_add]
    refine List.sum_le_sum ?_
    rintro ⟨i, c⟩ -
    have hsplit : (s • x + t • y) i - c = s * (x i - c) + t * (y i - c) := by
      simp only [Pi.add_apply, Pi.smul_apply, smul_eq_mul]
      linear_combination c * hsum
    rw [hsplit]
    calc |s * (x i - c) + t * (y i - c)| ≤ |s * (x i - c)| + |t * (y i - c)| := abs_add_le _ _
      _ = s * |x i - c| + t * |y i - c| := by
        rw [abs_mul, abs_mul, abs_of_nonneg hs, abs_of_nonneg ht]
  simp only [excess]
  linear_combination hsums + f.limit * hsum

theorem convex_feasible (constraints : List (LinearConstraint n K))
    (absoluteSums : List (AbsoluteSumLimit n K)) :
    Convex K (feasible constraints absoluteSums) := by
  rintro x ⟨hx, hx'⟩ y ⟨hy, hy'⟩ s t hs ht hsum
  constructor
  · intro c hc
    have hcx := hx c hc
    have hcy := hy c hc
    cases he : c.equality with
    | true =>
      simp only [LinearConstraint.Holds, he, if_true] at hcx hcy ⊢
      rw [c.slack_combine hsum, hcx, hcy]
      ring
    | false =>
      simp only [LinearConstraint.Holds, he, Bool.false_eq_true, if_false] at hcx hcy ⊢
      rw [c.slack_combine hsum]
      exact add_nonneg (mul_nonneg hs hcx) (mul_nonneg ht hcy)
  · intro f hf
    have hfx : f.excess x ≤ 0 := hx' f hf
    have hfy : f.excess y ≤ 0 := hy' f hf
    refine (f.excess_combine hs ht hsum x y).trans ?_
    exact add_nonpos (mul_nonpos_of_nonneg_of_nonpos hs hfx) (mul_nonpos_of_nonneg_of_nonpos ht hfy)

/-! ## Multipliers -/

structure Multipliers (K : Type) where
  linear : ℕ → K
  absolute : ℕ → K

namespace QuadraticProgram

variable (p : QuadraticProgram n K) (m : Multipliers K)

def objective (x : Fin n → K) : K := value p.hessian p.linear x

def Meets (x : Fin n → K) : Prop := x ∈ feasible p.constraints p.absoluteSums

def lagrangian (x : Fin n → K) : K :=
  p.objective x - (p.constraints.zipIdx.map fun c => m.linear c.2 * c.1.slack x).sum +
    (p.absoluteSums.zipIdx.map fun f => m.absolute f.2 * f.1.excess x).sum

def reported (label : String) : K :=
  (p.constraints.zipIdx.map fun c => if c.1.label = label then m.linear c.2 else 0).sum +
    (p.absoluteSums.zipIdx.map fun f => if f.1.label = label then m.absolute f.2 else 0).sum

end QuadraticProgram

section
variable {p : QuadraticProgram n K} {m : Multipliers K} {x : Fin n → K}

omit [IsStrictOrderedRing K] in
theorem QuadraticProgram.lagrangian_eq
    (hslack : ∀ c ∈ p.constraints.zipIdx, m.linear c.2 * c.1.slack x = 0)
    (hexcess : ∀ f ∈ p.absoluteSums.zipIdx, m.absolute f.2 * f.1.excess x = 0) :
    p.lagrangian m x = p.objective x := by
  rw [lagrangian, List.map_congr_left (g := fun _ => 0) hslack,
    List.map_congr_left (g := fun _ => 0) hexcess]
  simp

theorem QuadraticProgram.lagrangian_le
    (hlinear : ∀ c ∈ p.constraints.zipIdx, c.1.equality = false → 0 ≤ m.linear c.2)
    (habsolute : ∀ f ∈ p.absoluteSums.zipIdx, 0 ≤ m.absolute f.2) (hx : p.Meets x) :
    p.lagrangian m x ≤ p.objective x := by
  have hslacks : (p.constraints.zipIdx.map fun _ => (0 : K)).sum ≤
      (p.constraints.zipIdx.map fun c => m.linear c.2 * c.1.slack x).sum := by
    refine List.sum_le_sum ?_
    intro c hc
    exact (hx.1 c.1 (List.fst_mem_of_mem_zipIdx hc)).mul_slack_nonneg (hlinear c hc)
  have hexcesses : (p.absoluteSums.zipIdx.map fun f => m.absolute f.2 * f.1.excess x).sum ≤
      (p.absoluteSums.zipIdx.map fun _ => (0 : K)).sum := by
    refine List.sum_le_sum ?_
    intro f hf
    exact mul_nonpos_of_nonneg_of_nonpos (habsolute f hf) (hx.2 f.1 (List.fst_mem_of_mem_zipIdx hf))
  simp only [List.map_const', List.sum_replicate, smul_zero] at hslacks hexcesses
  rw [lagrangian]
  linarith

end

/-- `x` meets the constraints, and the multipliers `m` show that it is least: none is negative on
an inequality, each is zero where there is slack, and with them `x` is least without constraints. -/
structure KuhnTucker (p : QuadraticProgram n K) (x : Fin n → K) (m : Multipliers K) : Prop where
  meets : p.Meets x
  linear_nonneg : ∀ c ∈ p.constraints.zipIdx, c.1.equality = false → 0 ≤ m.linear c.2
  linear_slack : ∀ c ∈ p.constraints.zipIdx, m.linear c.2 * c.1.slack x = 0
  absolute_nonneg : ∀ f ∈ p.absoluteSums.zipIdx, 0 ≤ m.absolute f.2
  absolute_excess : ∀ f ∈ p.absoluteSums.zipIdx, m.absolute f.2 * f.1.excess x = 0
  least : ∀ y, p.lagrangian m x ≤ p.lagrangian m y

namespace KuhnTucker

variable {p : QuadraticProgram n K} {x : Fin n → K} {m : Multipliers K}

theorem isMinOn (h : KuhnTucker p x m) :
    IsMinOn p.objective (feasible p.constraints p.absoluteSums) x := by
  refine isMinOn_iff.mpr ?_
  intro y hy
  rw [← p.lagrangian_eq h.linear_slack h.absolute_excess]
  exact (h.least y).trans (p.lagrangian_le h.linear_nonneg h.absolute_nonneg hy)

end KuhnTucker

/-- A right answer: a point with multipliers for it, reported by label, or that no point meets the
constraints. -/
inductive QuadraticSolution.Answers (p : QuadraticProgram n K) (s : QuadraticSolution n K) : Prop
  | optimal (x : Fin n → K) (m : Multipliers K) (status : s.status = .optimal) (point : s.x = some x)
      (certified : KuhnTucker p x m)
      (reports : ∀ label, (s.multipliers.get? label).getD 0 = p.reported m label)
  | infeasible (status : s.status = .infeasible) (point : s.x = none)
      (inconsistent : feasible p.constraints p.absoluteSums = ∅)

end AlphaLab
