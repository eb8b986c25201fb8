/-
  Searches over a number of steps.

  * `narrow` thirds an interval until it is short, `bestIn` is the first of the best steps of
    one; `bestStep` puts them together;
  * `leastFrom` bisects between a step that fails and one that passes: `leastFrom_spec` is what
    it returns, `leastFrom_least` that it is the least where passing goes on.
-/
import Mathlib.Tactic

namespace StepSearch

variable {K : Type} [LinearOrder K]

/-! ## The best step -/

/-- Third the interval from `low` to `high` until it is two steps long. -/
def narrow (f : ℕ → K) (low high : ℕ) : ℕ × ℕ :=
  if 2 < high - low then
    let third := (high - low) / 3
    if f (low + third) ≤ f (high - third) then narrow f low (high - third)
    else narrow f (low + third) high
  else (low, high)
termination_by high - low

/-- The first of the best steps from `low` on, `count` further at most. -/
def bestIn (f : ℕ → K) (low : ℕ) : ℕ → ℕ
  | 0 => low
  | count + 1 =>
    let best := bestIn f low count
    if f (low + count + 1) < f best then low + count + 1 else best

/-- The best of what is left of the interval up to `top`. -/
def bestStep (f : ℕ → K) (top : ℕ) : ℕ :=
  let (low, high) := narrow f 0 top
  bestIn f low (high - low)

theorem narrow_within (f : ℕ → K) {low high : ℕ} (h : low ≤ high) :
    low ≤ (narrow f low high).1 ∧ (narrow f low high).1 ≤ (narrow f low high).2 ∧
      (narrow f low high).2 ≤ high := by
  induction hn : high - low using Nat.strong_induction_on generalizing low high with
  | h n ih =>
    rw [narrow]
    split_ifs with hlong
    · dsimp only
      split_ifs
      · obtain ⟨hlow, hmid, hhigh⟩ := ih _ (by omega)
          (by omega : low ≤ high - (high - low) / 3) rfl
        exact ⟨hlow, hmid, hhigh.trans (Nat.sub_le _ _)⟩
      · obtain ⟨hlow, hmid, hhigh⟩ := ih _ (by omega)
          (by omega : low + (high - low) / 3 ≤ high) rfl
        exact ⟨(Nat.le_add_right _ _).trans hlow, hmid, hhigh⟩
    · exact ⟨le_rfl, h, le_rfl⟩

theorem bestIn_le (f : ℕ → K) (low count : ℕ) : bestIn f low count ≤ low + count := by
  induction count with
  | zero => exact le_rfl
  | succ count ih =>
    simp only [bestIn]
    split_ifs
    · omega
    · omega

theorem bestStep_le (f : ℕ → K) (top : ℕ) : bestStep f top ≤ top := by
  obtain ⟨-, hmid, hhigh⟩ := narrow_within f (Nat.zero_le top)
  have hle := bestIn_le f (narrow f 0 top).1 ((narrow f 0 top).2 - (narrow f 0 top).1)
  show bestIn f _ _ ≤ top
  omega

/-- Halve between a step that fails, or none, and one that passes. -/
def leastFrom (passes : ℕ → Bool) (bottom top : ℕ) : ℕ :=
  if 1 < top - bottom then
    let middle := (bottom + top) / 2
    if passes middle then leastFrom passes bottom middle else leastFrom passes middle top
  else top
termination_by top - bottom

section
variable {passes : ℕ → Bool} {bottom top : ℕ}

/-- **The bisection** stays between its ends, and passes where its upper end does. -/
theorem leastFrom_spec (h : bottom < top) (htop : passes top = true) :
    bottom < leastFrom passes bottom top ∧ leastFrom passes bottom top ≤ top ∧
      passes (leastFrom passes bottom top) = true := by
  induction hn : top - bottom using Nat.strong_induction_on generalizing bottom top with
  | h n ih =>
    rw [leastFrom]
    split_ifs with hlong
    · dsimp only
      split_ifs with hmiddle
      · obtain ⟨hlow, hhigh, hpasses⟩ := ih _ (by omega)
          (by omega : bottom < (bottom + top) / 2) hmiddle rfl
        exact ⟨hlow, by omega, hpasses⟩
      · obtain ⟨hlow, hhigh, hpasses⟩ := ih _ (by omega)
          (by omega : (bottom + top) / 2 < top) htop rfl
        exact ⟨by omega, hhigh, hpasses⟩
    · exact ⟨h, le_rfl, htop⟩

/-- **It returns the least step that passes**, where what passes goes on passing. -/
theorem leastFrom_least (h : bottom < top) (hbottom : passes bottom = false)
    (hup : ∀ i j, i ≤ j → j ≤ top → passes i = true → passes j = true) :
    ∀ n < leastFrom passes bottom top, passes n = false := by
  induction hn : top - bottom using Nat.strong_induction_on generalizing bottom top with
  | h n ih =>
    rw [leastFrom]
    split_ifs with hlong
    · dsimp only
      split_ifs with hmiddle
      · exact ih _ (by omega) (by omega) hbottom (fun i j hij hj => hup i j hij (by omega)) rfl
      · exact ih _ (by omega) (by omega) (by simpa using hmiddle) hup rfl
    · intro m hm
      by_contra hpasses
      have hfails := hup m bottom (by omega) h.le (by simpa using hpasses)
      rw [hbottom] at hfails
      cases hfails

end

end StepSearch
