/-
  What an order cut in place keeps of what it holds.

  * `Side.against`: the units of a position that stand against an order, which
    adds nothing to the position until it has closed them;
  * `CutAlike`: the cuts that keep, of what an order holds, what is held for the
    smaller order; `stillAdded_share` says so of `_still_added`, and `share_iff`
    that no other cut does.
-/
import AlphaLab.Runtime.PipelineCalls

namespace AlphaLab

open Fallible

/-! ## What stands against an order -/

/-- The units of a position of `held` that stand against an order of a side. -/
def Side.against (side : Side) (held : Decimal) : Decimal := max 0 (-(side.signed held))

section
variable {side : Side} {held quantity : Decimal}

theorem Side.against_nonneg (side : Side) (held : Decimal) : 0 ≤ side.against held :=
  le_max_left _ _

theorem abs_side_signed (side : Side) (quantity : Decimal) : |side.signed quantity| = |quantity| := by
  cases side with
  | buy => rfl
  | sell => exact abs_neg quantity

theorem sub_abs_signed (h : 0 ≤ quantity) :
    max 0 (|held + side.signed quantity| - |held|) = max 0 (quantity - 2 * side.against held) := by
  unfold Side.against
  cases side with
  | buy =>
    simp only [Side.signed]
    rcases le_total 0 held with hheld | hheld
    · rw [max_eq_left (by linarith : -held ≤ 0), abs_of_nonneg hheld, abs_of_nonneg (by linarith)]
      ring_nf
    · rw [max_eq_right (by linarith : 0 ≤ -held), abs_of_nonpos hheld]
      rcases le_total 0 (held + quantity) with hafter | hafter
      · rw [abs_of_nonneg hafter]
        ring_nf
      · rw [abs_of_nonpos hafter, max_eq_left (by linarith), max_eq_left (by linarith)]
  | sell =>
    simp only [Side.signed, neg_neg]
    rcases le_total 0 held with hheld | hheld
    · rw [max_eq_right hheld, abs_of_nonneg hheld]
      rcases le_total 0 (held + -quantity) with hafter | hafter
      · rw [abs_of_nonneg hafter, max_eq_left (by linarith), max_eq_left (by linarith)]
      · rw [abs_of_nonpos hafter]
        ring_nf
    · rw [max_eq_left hheld, abs_of_nonpos hheld, abs_of_nonpos (by linarith)]
      ring_nf

/-- **What an order adds to the account's committed position.** -/
theorem accountAdding_signed (h : 0 ≤ quantity) (position : Option Decimal) :
    accountAdding position (side.signed quantity) =
      max 0 (quantity - position.elim 0 fun held => 2 * side.against held) := by
  cases position with
  | none =>
    rw [accountAdding, Option.elim_none, Option.elim_none, sub_zero, max_eq_right h,
      abs_side_signed, abs_of_nonneg h]
  | some held => exact sub_abs_signed h

theorem addingExposure_same {delta : Decimal} (h : held = 0 ∨ sameSide held (held + delta)) :
    addingExposure held delta = max 0 (|held + delta| - |held|) := if_pos h

theorem addingExposure_crossed {delta : Decimal} (hheld : held ≠ 0)
    (h : ¬ sameSide held (held + delta)) : addingExposure held delta = |held + delta| :=
  if_neg (not_or.mpr ⟨hheld, h⟩)

/-- **What an order adds to its strategy's position**: a trade that crosses opens the
    whole new side. -/
theorem addingExposure_signed (h : 0 ≤ quantity) :
    addingExposure held (side.signed quantity) = max 0 (quantity - side.against held) := by
  unfold Side.against
  cases side with
  | buy =>
    simp only [Side.signed]
    rcases lt_trichotomy held 0 with hheld | rfl | hheld
    · rw [max_eq_right (by linarith : 0 ≤ -held)]
      rcases lt_or_ge (held + quantity) 0 with hafter | hafter
      · rw [addingExposure_same (Or.inr ⟨iff_of_false hheld.not_gt hafter.not_gt, hafter.ne⟩),
          abs_of_neg hheld, abs_of_neg hafter, max_eq_left (by linarith),
          max_eq_left (by linarith)]
      · rw [addingExposure_crossed hheld.ne, abs_of_nonneg hafter, max_eq_right (by linarith)]
        · ring
        · rintro ⟨hside, hne⟩
          exact hheld.not_gt (hside.mpr (hafter.lt_of_ne hne.symm))
    · rw [addingExposure_same (Or.inl rfl), zero_add, abs_zero, neg_zero, max_self,
        abs_of_nonneg h]
    · have hafter : 0 < held + quantity := by linarith
      rw [addingExposure_same (Or.inr ⟨iff_of_true hheld hafter, hafter.ne'⟩), abs_of_pos hafter,
        abs_of_pos hheld, max_eq_left (by linarith : -held ≤ 0)]
      ring_nf
  | sell =>
    simp only [Side.signed, neg_neg]
    rcases lt_trichotomy held 0 with hheld | rfl | hheld
    · have hafter : held + -quantity < 0 := by linarith
      rw [addingExposure_same (Or.inr ⟨iff_of_false hheld.not_gt hafter.not_gt, hafter.ne⟩),
        abs_of_neg hafter, abs_of_neg hheld, max_eq_left hheld.le]
      ring_nf
    · rw [addingExposure_same (Or.inl rfl), zero_add, abs_zero, abs_neg, max_self,
        abs_of_nonneg h]
    · rw [max_eq_right hheld.le]
      rcases lt_or_ge 0 (held + -quantity) with hafter | hafter
      · rw [addingExposure_same (Or.inr ⟨iff_of_true hheld hafter, hafter.ne'⟩),
          abs_of_pos hheld, abs_of_pos hafter, max_eq_left (by linarith),
          max_eq_left (by linarith)]
      · rw [addingExposure_crossed hheld.ne', abs_of_nonpos hafter, max_eq_right (by linarith)]
        · ring
        · rintro ⟨hside, -⟩
          exact hafter.not_gt (hside.mp hheld)

theorem addsToAccount_signed (h : 0 ≤ quantity) (hsum : Exact (held + side.signed quantity))
    (hadds : Exact (|held + side.signed quantity| - |held|)) :
    addsToAccount held (side.signed quantity) = max 0 (quantity - 2 * side.against held) := by
  have hadd : add held (side.signed quantity) = held + side.signed quantity := hsum
  have hsub : subtract |held + side.signed quantity| |held| =
      |held + side.signed quantity| - |held| := hadds
  rw [addsToAccount, hadd, hsub, sub_abs_signed h]

end

/-! ## What a cut keeps -/

/-- What is held for an order after `used` units of it: the value of those of its
    quantity beyond what stood against it, less what was used of it. -/
theorem held_after {unit quantity used against : Decimal} (hunit : 0 ≤ unit) (hused : 0 ≤ used) :
    max 0 (unit * max 0 (quantity - against) - unit * used) =
      unit * max 0 (quantity - used - against) := by
  rw [mul_max_of_nonneg _ _ hunit, mul_max_of_nonneg _ _ hunit, mul_zero]
  have hproduct := mul_nonneg hunit hused
  rcases le_total 0 (unit * (quantity - against)) with hpos | hneg
  · rw [max_eq_right hpos]
    ring_nf
  · rw [max_eq_left hneg, max_eq_left (by linarith), max_eq_left]
    linarith [mul_sub unit (quantity - against) used, sub_right_comm quantity used against]

/-- **The cuts that keep the smaller order's share**: of an order's quantity `unreserved`
    units hold nothing and, as the book now stands, `standing` add nothing.  Where it
    still adds something the two are the same, or it is cut to no more than either;
    where it adds nothing, it holds its whole quantity. -/
def CutAlike (unreserved standing was now : Decimal) : Prop :=
  if was ≤ standing then unreserved = 0 ∨ now = 0 ∧ 0 ≤ unreserved
  else unreserved = standing ∨ now ≤ unreserved ∧ now ≤ standing

instance (unreserved standing was now : Decimal) :
    Decidable (CutAlike unreserved standing was now) :=
  inferInstanceAs (Decidable (if was ≤ standing then unreserved = 0 ∨ now = 0 ∧ 0 ≤ unreserved
    else unreserved = standing ∨ now ≤ unreserved ∧ now ≤ standing))

/-- What of an order's quantity a cut's share is taken by: what it still adds, or all of
    it where it adds nothing. -/
def cutBy (standing was quantity : Decimal) : Decimal :=
  if was ≤ standing then quantity else max 0 (quantity - standing)

/-- **A cut keeps the smaller order's share iff it is alike.** -/
theorem share_iff {unit unreserved standing was now : Decimal} (hunit : 0 < unit)
    (hholds : unreserved < was) (hnow : 0 ≤ now) (hcut : now < was) :
    unit * max 0 (was - unreserved) * cutBy standing was now / cutBy standing was was =
        unit * max 0 (now - unreserved) ↔ CutAlike unreserved standing was now := by
  have hwas : 0 < was := hnow.trans_lt hcut
  have hby : 0 < cutBy standing was was := by
    unfold cutBy
    split_ifs with hle
    · exact hwas
    · exact lt_max_of_lt_right (by linarith)
  rw [div_eq_iff hby.ne', mul_assoc, mul_assoc, mul_right_inj' hunit.ne',
    max_eq_right (by linarith : 0 ≤ was - unreserved)]
  unfold cutBy CutAlike
  split_ifs with hle
  · rcases le_total now unreserved with hless | hmore
    · rw [max_eq_left (by linarith), zero_mul, mul_eq_zero]
      constructor
      · rintro (h | rfl)
        · exact absurd h (by linarith)
        · exact Or.inr ⟨rfl, hless⟩
      · rintro (rfl | ⟨rfl, -⟩)
        · exact Or.inr (le_antisymm hless hnow)
        · exact Or.inr rfl
    · rw [max_eq_right (by linarith)]
      constructor
      · intro h
        have hzero : unreserved * (was - now) = 0 := by linarith
        rcases mul_eq_zero.mp hzero with h | h
        · exact Or.inl h
        · exact absurd h (by linarith)
      · rintro (rfl | ⟨rfl, h⟩)
        · ring
        · rw [le_antisymm hmore h]
          ring
  · push Not at hle
    rw [max_eq_right (by linarith : 0 ≤ was - standing)]
    rcases le_total now unreserved with hless | hmore
    · rw [max_eq_left (by linarith : now - unreserved ≤ 0), zero_mul, mul_eq_zero,
        or_iff_right (by linarith : ¬ was - unreserved = 0), max_eq_left_iff]
      constructor
      · exact fun h => Or.inr ⟨hless, by linarith⟩
      · rintro (rfl | ⟨-, h⟩)
        · linarith
        · linarith
    · rw [max_eq_right (by linarith : 0 ≤ now - unreserved)]
      rcases le_total now standing with hunder | hover
      · rw [max_eq_left (by linarith), mul_zero, zero_eq_mul, or_iff_left (by linarith)]
        constructor
        · exact fun h => Or.inr ⟨by linarith, hunder⟩
        · rintro (rfl | ⟨h, -⟩)
          · linarith
          · linarith
      · rw [max_eq_right (by linarith)]
        constructor
        · intro h
          have hzero : (unreserved - standing) * (was - now) = 0 := by linarith
          rcases mul_eq_zero.mp hzero with h | h
          · exact Or.inl (by linarith)
          · exact absurd h (by linarith)
        · rintro (rfl | ⟨h, h'⟩)
          · ring
          · obtain rfl := le_antisymm h hmore
            obtain rfl := le_antisymm h' hover
            ring

/-- What `_still_added` computes, its product exact: the share that is still added. -/
theorem stillAdded_share {adds : Decimal → Decimal → Decimal} {side : Side}
    {reserved before standing was now : Decimal} (hwas : 0 ≤ was) (hnow : 0 ≤ now)
    (haddsWas : adds before (side.signed was) = max 0 (was - standing))
    (haddsNow : adds before (side.signed now) = max 0 (now - standing))
    (hexact : Exact (reserved * cutBy standing was now)) :
    stillAdded reserved before (side.signed was) (side.signed now) adds =
      inContext (reserved * cutBy standing was now / cutBy standing was was) := by
  have hproduct : multiply reserved (cutBy standing was now) =
      reserved * cutBy standing was now := hexact
  unfold stillAdded
  dsimp only
  rw [haddsWas, haddsNow, abs_side_signed, abs_side_signed, abs_of_nonneg hwas,
    abs_of_nonneg hnow]
  unfold cutBy at hproduct ⊢
  by_cases hle : was ≤ standing
  · rw [if_pos hle] at hproduct
    rw [if_pos (max_eq_left (by linarith)), if_pos hle, if_pos hle, hproduct]
    rfl
  · rw [if_neg hle] at hproduct
    push Not at hle
    have hadds : max 0 (was - standing) ≠ 0 := (lt_max_of_lt_right (by linarith)).ne'
    rw [if_neg hadds, if_neg hle.not_ge, if_neg hle.not_ge, hproduct]
    rfl

end AlphaLab
