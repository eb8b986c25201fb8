/-
  Weighing one quantity against another.

  `weighed V f a` is `(a / 2) V + f`.  A point that is least for it over a set `S` is written `x ∈ S`
  with `IsMinOn (weighed V f a) S x`.

  * `spread_le_of_weight_lt`: raising the weight never raises `V` at the least point;
  * `isMinOn_within`: what is least at a weight above `a₀` is least at `a₀` among the points whose
    `V` is no larger.
-/
import AlphaLab.Lib.Numerals
import Mathlib.Tactic.Linarith
import Mathlib.Tactic.FieldSimp
import Mathlib.Tactic.Ring
import Mathlib.Order.Filter.Extr
import Mathlib.Algebra.Order.Field.Basic

namespace Tradeoffs

attribute [local instance] Numerals.two

variable {X K : Type*} [Field K] [LinearOrder K] [IsStrictOrderedRing K]
variable {V f : X → K} {S : Set X} {a b : K} {x y z : X}

/-- `(a / 2) V + f`. -/
def weighed (V f : X → K) (a : K) (x : X) : K := a / 2 * V x + f x

theorem weighed_shift (V f : X → K) (a b : K) (x : X) :
    weighed V f a x = weighed V f b x - (b - a) / 2 * V x := by
  simp only [weighed]
  ring

theorem spread_le_of_weight_lt (hx : x ∈ S) (hleast : IsMinOn (weighed V f a) S x) (hy : y ∈ S)
    (hleast' : IsMinOn (weighed V f b) S y) (hab : a < b) : V y ≤ V x := by
  -- each point is least for its own weight; adding the two comparisons leaves `V` alone
  have hxy := isMinOn_iff.mp hleast y hy
  have hyx := isMinOn_iff.mp hleast' x hx
  rw [weighed_shift V f a b x, weighed_shift V f a b y] at hxy
  have hscaled : (b - a) / 2 * V y ≤ (b - a) / 2 * V x := by linarith
  exact le_of_mul_le_mul_left hscaled (by linarith)

theorem isMinOn_within (hleast : IsMinOn (weighed V f b) S x) (hab : a ≤ b) :
    IsMinOn (weighed V f a) {y ∈ S | V y ≤ V x} x := by
  refine isMinOn_iff.mpr ?_
  rintro y ⟨hy, hV⟩
  have hxy := isMinOn_iff.mp hleast y hy
  have hsaved : (b - a) / 2 * V y ≤ (b - a) / 2 * V x :=
    mul_le_mul_of_nonneg_left hV (by linarith)
  rw [weighed_shift V f a b x, weighed_shift V f a b y]
  linarith

end Tradeoffs
