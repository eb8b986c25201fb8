/-
  Quadratic forms of positive definite matrices, and quadratic objectives.

  `form G x` is `x'Gx` and `value G a x` is `1/2 x'Gx + a'x`.

  * `form_add`, `value_add`: expansion along a direction;
  * `strictConvexOn_form`, `strictConvexOn_value`: convexity.
-/
import AlphaLab.Lib.Numerals
import Mathlib.Algebra.Order.Star.Real
import Mathlib.Analysis.Convex.Function
import Mathlib.LinearAlgebra.Matrix.PosDef
import Mathlib.Tactic.Linarith
import Mathlib.Tactic.FieldSimp
import Mathlib.Tactic.Ring

open Matrix

namespace QuadraticForms

attribute [local instance] Numerals.two

variable {ι : Type*} [Fintype ι]

section
variable {K : Type*} [Field K] {G : Matrix ι ι K}

/-- `x'Gx`. -/
def form (G : Matrix ι ι K) (x : ι → K) : K := x ⬝ᵥ G *ᵥ x

/-- `1/2 x'Gx + a'x`. -/
def value (G : Matrix ι ι K) (a x : ι → K) : K := 1 / 2 * form G x + a ⬝ᵥ x

/-- `Gx + a`. -/
def gradient (G : Matrix ι ι K) (a x : ι → K) : ι → K := G *ᵥ x + a

theorem mulVec_dot_comm (hG : G.IsSymm) (x y : ι → K) : x ⬝ᵥ G *ᵥ y = y ⬝ᵥ G *ᵥ x := by
  rw [dotProduct_mulVec, ← mulVec_transpose, hG.eq, dotProduct_comm]

theorem form_add (hG : G.IsSymm) (x d : ι → K) :
    form G (x + d) = form G x + 2 * (d ⬝ᵥ G *ᵥ x) + form G d := by
  simp only [form, mulVec_add, add_dotProduct, dotProduct_add, mulVec_dot_comm hG x d]
  ring

theorem form_smul (t : K) (x : ι → K) : form G (t • x) = t ^ 2 * form G x := by
  simp only [form, mulVec_smul, smul_dotProduct, dotProduct_smul, smul_eq_mul]
  ring

@[simp] theorem form_zero : form G (0 : ι → K) = 0 := by simp [form]

theorem form_scale (t : K) (x : ι → K) : form (t • G) x = t * form G x := by
  simp only [form, smul_mulVec, dotProduct_smul, smul_eq_mul]

theorem value_add [CharZero K] (hG : G.IsSymm) (a x d : ι → K) :
    value G a (x + d) = value G a x + gradient G a x ⬝ᵥ d + 1 / 2 * form G d := by
  simp only [value, gradient, form_add hG, dotProduct_add, add_dotProduct,
    dotProduct_comm (G *ᵥ x) d]
  ring

end

section
variable {G : Matrix ι ι ℝ}

omit [Fintype ι] in
theorem isSymm (hG : G.PosDef) : G.IsSymm := by
  have h := hG.isHermitian
  rwa [IsHermitian, conjTranspose_eq_transpose_of_trivial] at h

theorem form_pos (hG : G.PosDef) {x : ι → ℝ} (hx : x ≠ 0) : 0 < form G x := by
  simpa [form] using hG.dotProduct_mulVec_pos hx

theorem form_nonneg (hG : G.PosDef) (x : ι → ℝ) : 0 ≤ form G x := by
  rcases eq_or_ne x 0 with rfl | hx
  · simp
  · exact (form_pos hG hx).le

theorem strictConvexOn_form (hG : G.PosDef) : StrictConvexOn ℝ Set.univ (form G) := by
  refine ⟨convex_univ, ?_⟩
  rintro x - y - hne s t hs ht hsum
  obtain rfl : t = 1 - s := by linarith
  -- the two sides differ by `s (1 - s) (x - y)'G(x - y)`
  have hmixed : s • x + (1 - s) • y = y + s • (x - y) := by module
  have hx : form G x = form G y + 2 * ((x - y) ⬝ᵥ G *ᵥ y) + form G (x - y) := by
    rw [← form_add (isSymm hG), add_sub_cancel]
  have hpos := mul_pos (mul_pos hs ht) (form_pos hG (sub_ne_zero.mpr hne))
  rw [hmixed, form_add (isSymm hG), form_smul, smul_dotProduct, hx]
  simp only [smul_eq_mul]
  linarith

theorem strictConvexOn_value (hG : G.PosDef) (a : ι → ℝ) :
    StrictConvexOn ℝ Set.univ (value G a) := by
  have hlinear : ConvexOn ℝ Set.univ fun x : ι → ℝ => a ⬝ᵥ x := by
    refine ⟨convex_univ, ?_⟩
    rintro x - y - s t - - -
    simp [dotProduct_add, dotProduct_smul]
  have hhalf : StrictConvexOn ℝ Set.univ fun x => 1 / 2 * form G x := by
    have h := strictConvexOn_form (hG.smul (by norm_num : (0 : ℝ) < 1 / 2))
    rwa [show form ((1 / 2 : ℝ) • G) = fun x => 1 / 2 * form G x from funext (form_scale _)] at h
  exact hhalf.add_convexOn hlinear

end

end QuadraticForms
