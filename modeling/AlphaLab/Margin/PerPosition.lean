/-
  A liquidation of positions margined on their own (`_per_position_reductions` of
  `runtime/execution_pipeline.py`).

  * `reduceFrom` sells of the holdings in their order, of each what is needed of what is left
    of the deficit, rounded to accounting digits and up to the holding's step;
  * `restores_iff`: in exact arithmetic the sales restore what is left, or all that can be sold,
    in order, iff the quotients cover; `reductions_restore_iff`: of the book after the sales.
-/
import AlphaLab.Margin.Descent

namespace AlphaLab

open Rounding Fallible

namespace MarginHolding

variable (h : MarginHolding)

/-- A quantity in accounting digits, and up to a whole number of steps where there is one. -/
def roundedUp (step : Option Decimal) (quantity : Decimal) : Decimal :=
  match step with
  | none => inContext quantity
  | some step => multiply ⌈divide (inContext quantity) step⌉ step

/-- What of it is needed to improve the margin by `remaining`. -/
def needed (step : Option Decimal) (remaining : Decimal) : Decimal :=
  match step with
  | none => divide remaining h.improvement
  | some step => multiply ⌈divide (divide remaining h.improvement) step⌉ step

theorem needed_eq (step : Option Decimal) (remaining : Decimal) :
    h.needed step remaining = roundedUp step (remaining / h.improvement) := by
  cases step <;> rfl

theorem roundedUp_pos {step : Option Decimal} (hstep : ∀ u ∈ step, 0 < u) {quantity : Decimal}
    (hpos : 0 < quantity) : 0 < roundedUp step quantity := by
  cases step with
  | none => exact inContext_pos hpos
  | some u =>
    have hu := hstep u rfl
    have hsteps : 0 < ⌈divide (inContext quantity) u⌉ :=
      Int.ceil_pos.mpr (inContext_pos (div_pos (inContext_pos hpos) hu))
    exact inContext_pos (mul_pos (by exact_mod_cast hsteps) hu)

end MarginHolding

/-- The loop of `_per_position_reductions`: what is left of the deficit is sold for, holding
    after holding, of those that can be sold. -/
def reduceFrom (step : MarginHolding → Option Decimal) (sellable : MarginHolding → Bool) :
    Decimal → List MarginHolding → List (MarginHolding × Decimal)
  | _, [] => []
  | remaining, h :: l =>
    if remaining ≤ 0 then []
    else
      let quantity := min (h.needed (step h) remaining) |h.quantity|
      if ¬ sellable h ∨ h.improvement ≤ 0 ∨ quantity ≤ 0 then reduceFrom step sellable remaining l
      else (h, quantity) ::
        reduceFrom step sellable (subtract remaining (multiply quantity h.improvement)) l

def PipelineState.perPositionReductions (s : PipelineState) (c : SimulationConfig)
    (m : MarginPosition) : List (MarginHolding × Decimal) :=
  reduceFrom c.liquidationStep s.sellable m.deficit m.holdings

/-! ## The sales in exact arithmetic -/

def improvedBy (sales : List (MarginHolding × Decimal)) : Decimal :=
  (sales.map fun r => r.2 * r.1.improvement).sum

def SoldInOrder (sellable : MarginHolding → Bool) (l : List MarginHolding)
    (sales : List (MarginHolding × Decimal)) : Prop :=
  l.Pairwise fun earlier later =>
    sellable earlier = true → later ∈ sales.map (·.1) → (earlier, |earlier.quantity|) ∈ sales

def Restores (sellable : MarginHolding → Bool) (remaining : Decimal) (l : List MarginHolding)
    (sales : List (MarginHolding × Decimal)) : Prop :=
  (remaining ≤ improvedBy sales ∨
      ∀ h ∈ l, sellable h = true → 0 < h.improvement → (h, |h.quantity|) ∈ sales) ∧
    SoldInOrder sellable l sales

/-- **No quotient that decides is rounded down**: at the first holding of which not all is
    needed, the quantity needed in steps and accounting digits is no less than the quotient of
    what is left there by what a unit improves; and no holding that improves nothing can be
    sold before one that improves. -/
def Covers (step : MarginHolding → Option Decimal) (sellable : MarginHolding → Bool) :
    Decimal → List MarginHolding → Prop
  | _, [] => True
  | remaining, h :: l =>
    remaining ≤ 0 ∨
      if sellable h then
        if 0 < h.improvement then
          if MarginHolding.roundedUp (step h) (remaining / h.improvement) < |h.quantity| then
            remaining / h.improvement ≤
              MarginHolding.roundedUp (step h) (remaining / h.improvement)
          else Covers step sellable (remaining - |h.quantity| * h.improvement) l
        else ∀ later ∈ l, sellable later = true → later.improvement ≤ 0
      else Covers step sellable remaining l

instance (sellable : MarginHolding → Bool) (l : List MarginHolding)
    (sales : List (MarginHolding × Decimal)) : Decidable (SoldInOrder sellable l sales) :=
  inferInstanceAs (Decidable (List.Pairwise _ _))

instance decidableCovers (step : MarginHolding → Option Decimal)
    (sellable : MarginHolding → Bool) :
    ∀ (remaining : Decimal) (l : List MarginHolding), Decidable (Covers step sellable remaining l)
  | _, [] => isTrue trivial
  | remaining, h :: l =>
    have := decidableCovers step sellable remaining l
    have := decidableCovers step sellable (remaining - |h.quantity| * h.improvement) l
    inferInstanceAs (Decidable (remaining ≤ 0 ∨
      if sellable h then
        if 0 < h.improvement then
          if MarginHolding.roundedUp (step h) (remaining / h.improvement) < |h.quantity| then
            remaining / h.improvement ≤
              MarginHolding.roundedUp (step h) (remaining / h.improvement)
          else Covers step sellable (remaining - |h.quantity| * h.improvement) l
        else ∀ later ∈ l, sellable later = true → later.improvement ≤ 0
      else Covers step sellable remaining l))

section
variable {step : MarginHolding → Option Decimal} {sellable : MarginHolding → Bool}
  {remaining : Decimal} {l : List MarginHolding} {h : MarginHolding}

theorem reduceFrom_done (hdone : remaining ≤ 0) : reduceFrom step sellable remaining l = [] := by
  cases l with
  | nil => rfl
  | cons h l => exact if_pos hdone

theorem reduceFrom_skip (hleft : 0 < remaining) (hskip : sellable h = false ∨ h.improvement ≤ 0) :
    reduceFrom step sellable remaining (h :: l) = reduceFrom step sellable remaining l := by
  have hcond : ¬ sellable h ∨ h.improvement ≤ 0 ∨
      min (h.needed (step h) remaining) |h.quantity| ≤ 0 := by
    rcases hskip with hclosed | hnothing
    · exact Or.inl (by simp [hclosed])
    · exact Or.inr (Or.inl hnothing)
  exact (if_neg (not_le.mpr hleft)).trans (if_pos hcond)

/-- A holding that can be sold and improves is sold of. -/
theorem reduceFrom_sell (hleft : 0 < remaining) (hsellable : sellable h = true)
    (himproves : 0 < h.improvement) (hstep : ∀ u ∈ step h, 0 < u) (hheld : h.quantity ≠ 0) :
    0 < min (h.needed (step h) remaining) |h.quantity| ∧
      reduceFrom step sellable remaining (h :: l) =
        (h, min (h.needed (step h) remaining) |h.quantity|) ::
          reduceFrom step sellable (subtract remaining
            (multiply (min (h.needed (step h) remaining) |h.quantity|) h.improvement)) l := by
  have hquantity : 0 < min (h.needed (step h) remaining) |h.quantity| := by
    rw [h.needed_eq]
    exact lt_min (MarginHolding.roundedUp_pos hstep (div_pos hleft himproves)) (abs_pos.mpr hheld)
  refine ⟨hquantity, (if_neg (not_le.mpr hleft)).trans (if_neg ?_)⟩
  rintro (hclosed | hnothing | hnone)
  · exact hclosed hsellable
  · exact absurd himproves hnothing.not_gt
  · exact absurd hquantity hnone.not_gt

/-- **What is sold** is some of a holding that can be sold and improves, and no more than it. -/
theorem mem_reduceFrom {r : MarginHolding × Decimal}
    (hr : r ∈ reduceFrom step sellable remaining l) :
    r.1 ∈ l ∧ sellable r.1 = true ∧ 0 < r.1.improvement ∧ 0 < r.2 ∧ r.2 ≤ |r.1.quantity| := by
  induction l generalizing remaining with
  | nil => nomatch hr
  | cons h l ih =>
    unfold reduceFrom at hr
    dsimp only at hr
    split_ifs at hr with hdone hskip
    · nomatch hr
    · obtain ⟨hmem, hrest⟩ := ih hr
      exact ⟨List.mem_cons_of_mem _ hmem, hrest⟩
    · obtain ⟨hsellable, himproves, hquantity⟩ := not_or.mp hskip |>.imp id not_or.mp
      rcases List.mem_cons.mp hr with rfl | hr
      · exact ⟨List.mem_cons_self, not_not.mp hsellable, not_le.mp himproves,
          not_le.mp hquantity, min_le_right _ _⟩
      · obtain ⟨hmem, hrest⟩ := ih hr
        exact ⟨List.mem_cons_of_mem _ hmem, hrest⟩

theorem reduceFrom_sublist : ((reduceFrom step sellable remaining l).map (·.1)).Sublist l := by
  induction l generalizing remaining with
  | nil => exact .slnil
  | cons h l ih =>
    unfold reduceFrom
    dsimp only
    split_ifs
    · exact List.nil_sublist _
    · exact ih.cons h
    · exact ih.cons_cons h

theorem no_improvement_of_nil (hleft : 0 < remaining) (hstep : ∀ h ∈ l, ∀ u ∈ step h, 0 < u)
    (hheld : ∀ h ∈ l, h.quantity ≠ 0) (hnone : reduceFrom step sellable remaining l = []) :
    ∀ h ∈ l, sellable h = true → h.improvement ≤ 0 := by
  induction l with
  | nil => simp
  | cons h l ih =>
    intro h' hh' hsellable
    by_contra himproves
    rcases List.mem_cons.mp hh' with rfl | hlater
    · rw [(reduceFrom_sell hleft hsellable (not_le.mp himproves) (hstep h' (by simp))
        (hheld h' (by simp))).2] at hnone
      nomatch hnone
    · have hskip : sellable h = false ∨ h.improvement ≤ 0 := by
        by_contra hboth
        obtain ⟨hopen, hgood⟩ := not_or.mp hboth
        rw [(reduceFrom_sell hleft (by simpa using hopen) (not_le.mp hgood) (hstep h (by simp))
          (hheld h (by simp))).2] at hnone
        nomatch hnone
      rw [reduceFrom_skip hleft hskip] at hnone
      exact himproves (ih (fun g hg => hstep g (by simp [hg])) (fun g hg => hheld g (by simp [hg]))
        hnone h' hlater hsellable)

theorem improvedBy_cons (r : MarginHolding × Decimal) (sales : List (MarginHolding × Decimal)) :
    improvedBy (r :: sales) = r.2 * r.1.improvement + improvedBy sales := by
  simp [improvedBy]

theorem improvedBy_nonneg : 0 ≤ improvedBy (reduceFrom step sellable remaining l) := by
  refine List.sum_nonneg fun x hx => ?_
  obtain ⟨r, hr, rfl⟩ := List.mem_map.mp hx
  obtain ⟨-, -, himproves, hpositive, -⟩ := mem_reduceFrom hr
  exact (mul_pos hpositive himproves).le

end

section
variable {step : MarginHolding → Option Decimal} {sellable : MarginHolding → Bool}
  {remaining : Decimal} {l : List MarginHolding} {h : MarginHolding}
  {sales : List (MarginHolding × Decimal)} {place : ℤ}

theorem restores_closed (hclosed : sellable h = false) :
    Restores sellable remaining (h :: l) sales ↔ Restores sellable remaining l sales := by
  unfold Restores SoldInOrder
  rw [List.pairwise_cons, List.forall_mem_cons]
  simp [hclosed]

theorem soldInOrder_cons {quantity : Decimal} (hnotMem : h ∉ l) :
    SoldInOrder sellable l ((h, quantity) :: sales) ↔ SoldInOrder sellable l sales := by
  refine List.Pairwise.iff_of_mem fun {earlier later} hearlier hlater => ?_
  have hne : ∀ g ∈ l, g ≠ h := fun g hg heq => hnotMem (heq ▸ hg)
  simp only [List.map_cons, List.mem_cons, hne later hlater, false_or, Prod.mk.injEq,
    hne earlier hearlier, false_and]

/-- **All of a holding sold**: the rest is restored by what is sold after it. -/
theorem restores_whole (hnotMem : h ∉ l) :
    Restores sellable remaining (h :: l) ((h, |h.quantity|) :: sales) ↔
      Restores sellable (remaining - |h.quantity| * h.improvement) l sales := by
  have hothers : (∀ g ∈ l, sellable g = true → 0 < g.improvement →
      (g, |g.quantity|) ∈ (h, |h.quantity|) :: sales) ↔
      ∀ g ∈ l, sellable g = true → 0 < g.improvement → (g, |g.quantity|) ∈ sales := by
    refine forall₂_congr fun g hg => ?_
    have hne : g ≠ h := fun heq => hnotMem (heq ▸ hg)
    simp [hne]
  unfold Restores
  rw [improvedBy_cons, List.forall_mem_cons, hothers, sub_le_iff_le_add']
  unfold SoldInOrder
  rw [List.pairwise_cons]
  have hin : (h, |h.quantity|) ∈ (h, |h.quantity|) :: sales := List.mem_cons_self
  constructor
  · rintro ⟨hrestored, -, hrest⟩
    exact ⟨hrestored.imp id And.right, (soldInOrder_cons hnotMem).mp hrest⟩
  · rintro ⟨hrestored, hrest⟩
    exact ⟨hrestored.imp id fun hall => ⟨fun _ _ => hin, hall⟩, fun _ _ _ _ => hin,
      (soldInOrder_cons hnotMem).mpr hrest⟩

/-- A holding sold in part and nothing after it. -/
theorem restores_part {quantity : Decimal} (hnotMem : h ∉ l) (hsellable : sellable h = true)
    (himproves : 0 < h.improvement) (hpart : quantity < |h.quantity|)
    (hrest : ∀ r ∈ sales, r.1 ∈ l ∧ 0 < r.2 ∧ 0 < r.1.improvement) :
    Restores sellable remaining (h :: l) ((h, quantity) :: sales) ↔
      sales = [] ∧ remaining ≤ quantity * h.improvement := by
  have hkept : (h, |h.quantity|) ∉ (h, quantity) :: sales := by
    rw [List.mem_cons, not_or]
    refine ⟨fun heq => hpart.ne' (Prod.mk.inj heq).2, fun hlater => hnotMem (hrest _ hlater).1⟩
  constructor
  · rintro ⟨hrestored, horder⟩
    have hnone : sales = [] := by
      by_contra hsome
      obtain ⟨r, hr⟩ := List.exists_mem_of_ne_nil _ hsome
      refine hkept ((List.pairwise_cons.mp horder).1 r.1 (hrest r hr).1 hsellable ?_)
      exact List.mem_map_of_mem (List.mem_cons_of_mem _ hr)
    refine ⟨hnone, ?_⟩
    rcases hrestored with hrestored | hall
    · simpa [improvedBy, hnone] using hrestored
    · exact absurd (hall h List.mem_cons_self hsellable himproves) hkept
  · rintro ⟨rfl, hrestored⟩
    refine ⟨Or.inl (by simpa [improvedBy] using hrestored), ?_⟩
    refine List.pairwise_cons.mpr ⟨?_, (soldInOrder_cons hnotMem).mpr ?_⟩
    · intro later hlater _ hsold
      simp only [List.map_cons, List.map_nil, List.mem_singleton] at hsold
      exact absurd (hsold ▸ hlater) hnotMem
    · exact List.pairwise_of_forall fun _ _ _ hsold => nomatch hsold

/-- **The sales restore what is left, or all that can be sold, in order, iff the quotients
    cover**, where the sums of the holdings are carried. -/
theorem restores_iff (hnodup : l.Nodup) (hstep : ∀ h ∈ l, ∀ u ∈ step h, 0 < u)
    (hheld : ∀ h ∈ l, h.quantity ≠ 0)
    (hcarried : ∀ h ∈ l, 0 < h.improvement →
      OnGrid (placeUnit place) (|h.quantity| * h.improvement) ∧
        |h.quantity| * h.improvement < placeUnit (place + accountingPrecision))
    (hplace : OnGrid (placeUnit place) remaining)
    (hsmall : remaining < placeUnit (place + accountingPrecision)) :
    Restores sellable remaining l (reduceFrom step sellable remaining l) ↔
      Covers step sellable remaining l := by
  induction l generalizing remaining with
  | nil => simp [Restores, SoldInOrder, Covers]
  | cons h l ih =>
    obtain ⟨hnotMem, hnodup⟩ := List.nodup_cons.mp hnodup
    have hrec := @ih remaining hnodup (fun g hg => hstep g (by simp [hg]))
      (fun g hg => hheld g (by simp [hg])) (fun g hg => hcarried g (by simp [hg])) hplace hsmall
    unfold Covers
    rcases le_or_gt remaining 0 with hdone | hleft
    · -- nothing is left, and nothing is sold
      have hnone : Restores sellable remaining (h :: l) [] :=
        ⟨Or.inl (by simpa [improvedBy] using hdone),
          List.pairwise_of_forall fun _ _ _ hsold => nomatch hsold⟩
      rw [reduceFrom_done hdone]
      exact iff_of_true hnone (Or.inl hdone)
    rw [or_iff_right hleft.not_ge]
    cases hsellable : sellable h with
    | false =>
      rw [reduceFrom_skip hleft (Or.inl hsellable), restores_closed hsellable, hrec]
      simp
    | true =>
      rw [if_pos rfl]
      by_cases himproves : 0 < h.improvement
      · rw [if_pos himproves]
        obtain ⟨hpositive, hsold⟩ := reduceFrom_sell (l := l) hleft hsellable himproves
          (hstep h (by simp)) (hheld h (by simp))
        rw [hsold, h.needed_eq]
        rw [h.needed_eq] at hpositive
        by_cases hpart : MarginHolding.roundedUp (step h) (remaining / h.improvement) < |h.quantity|
        · -- part of it restores what is left, or is rounded short of it
          rw [if_pos hpart, min_eq_left hpart.le,
            restores_part hnotMem hsellable himproves hpart fun r hr => ?_,
            div_le_iff₀ himproves]
          · refine and_iff_right_of_imp fun henough => reduceFrom_done ?_
            have hexact : inContext remaining = remaining := inContext_of_place hplace hleft.le hsmall
            have hcover : remaining ≤ multiply
                (MarginHolding.roundedUp (step h) (remaining / h.improvement)) h.improvement := by
              calc remaining = inContext remaining := hexact.symm
                _ ≤ multiply _ h.improvement := inContext_monotone henough
            rcases (sub_nonpos.mpr hcover).lt_or_eq with hneg | hzero
            · exact (inContext_neg hneg).le
            · exact (inContext_eq_zero.mpr hzero).le
          · obtain ⟨hmem, -, hgood, hsome, -⟩ := mem_reduceFrom hr
            exact ⟨hmem, hsome, hgood⟩
        · -- all of it is sold, and what it improves is carried
          obtain ⟨hgrid, hfits⟩ := hcarried h (by simp) himproves
          have hamount : 0 ≤ |h.quantity| * h.improvement :=
            mul_nonneg (abs_nonneg _) himproves.le
          have hexact : multiply |h.quantity| h.improvement = |h.quantity| * h.improvement :=
            inContext_of_place hgrid hamount hfits
          have hrest : subtract remaining (|h.quantity| * h.improvement) =
              remaining - |h.quantity| * h.improvement :=
            roundSig_of_onGrid (by decide) (hplace.sub hgrid)
              (abs_sub_lt_of_nonneg_of_lt hleft.le hsmall hamount hfits)
          rw [if_neg hpart, min_eq_right (not_lt.mp hpart), hexact, hrest, restores_whole hnotMem]
          exact ih hnodup (fun g hg => hstep g (by simp [hg])) (fun g hg => hheld g (by simp [hg]))
            (fun g hg => hcarried g (by simp [hg])) (hplace.sub hgrid)
            ((sub_le_self _ hamount).trans_lt hsmall)
      · -- it improves nothing, and stays whole
        rw [if_neg himproves, reduceFrom_skip hleft (Or.inr (not_lt.mp himproves))]
        constructor
        · rintro ⟨-, horder⟩
          refine no_improvement_of_nil hleft (fun g hg => hstep g (by simp [hg]))
            (fun g hg => hheld g (by simp [hg])) ?_
          by_contra hsome
          obtain ⟨r, hr⟩ := List.exists_mem_of_ne_nil _ hsome
          have hwhole := (List.pairwise_cons.mp horder).1 r.1 (mem_reduceFrom hr).1 hsellable
            (List.mem_map_of_mem hr)
          exact hnotMem (mem_reduceFrom hwhole).1
        · intro hnothing
          have hnone : reduceFrom step sellable remaining l = [] := by
            rw [List.eq_nil_iff_forall_not_mem]
            intro r hr
            obtain ⟨hmem, hopen, hgood, -⟩ := mem_reduceFrom hr
            exact (hnothing r.1 hmem hopen).not_gt hgood
          rw [hnone]
          refine ⟨Or.inr ?_, List.pairwise_of_forall fun _ _ _ hsold => nomatch hsold⟩
          intro g hg hopen hgood
          rcases List.mem_cons.mp hg with rfl | hg
          · exact absurd hgood himproves
          · exact absurd hgood (hnothing g hg hopen).not_gt

end

/-! ## Exact figures -/

namespace MarginedPosition

variable (p : MarginedPosition)

def exactUnit : Decimal := p.position.marketPrice * p.position.multiplier

def exactUnitInitial : Decimal :=
  match p.terms.basis with
  | .valueRate => p.exactUnit * p.terms.initial
  | .perContract => p.terms.initial

def exactInitial : Decimal :=
  match p.terms.basis with
  | .valueRate => |p.position.quantity * p.exactUnit| * p.terms.initial
  | .perContract => |p.position.quantity| * p.terms.initial

def exactUnitHeldBack : Decimal :=
  if p.isCollateral then p.exactUnit * p.terms.haircut else 0

def exactHeldBack : Decimal := |p.position.quantity| * p.exactUnitHeldBack

def amounts : List Decimal :=
  [|p.position.quantity| * p.position.marketPrice, |p.position.quantity| * p.exactUnit,
    p.exactUnit, p.exactUnitInitial, p.exactUnitHeldBack, p.exactInitial, p.exactHeldBack]

def sell (sold : Decimal) : MarginedPosition :=
  { p with position :=
    { p.position with quantity := p.position.quantity - p.holding.sign * sold } }

end MarginedPosition

def soldOfAsset (sales : List (MarginHolding × Decimal)) (assetId : String) : Decimal :=
  (sales.map fun r => if r.1.assetId = assetId then r.2 else 0).sum

namespace MarginBook

variable (b : MarginBook)

def exactInitial : Decimal := (b.positions.map (·.exactInitial)).sum

/-- What is held: the net asset value less what is not collateral. -/
def exactEquity : Decimal := b.nav - ((b.positions.map (·.exactHeldBack)).sum + b.owed)

def exactDeficit : Decimal := max 0 (b.exactInitial - b.exactEquity)

/-- The book after sales at the marks, which move no net asset value. -/
def afterSales (sales : List (MarginHolding × Decimal)) : MarginBook where
  nav := b.nav
  owed := b.owed
  positions := b.positions.map fun p => p.sell (soldOfAsset sales p.assetId)
  model := b.model
  nodup := by
    rw [List.map_map]
    exact b.nodup

/-- The amounts of the figures are whole numbers of the unit of one decimal place, and their
    sizes together need no digit that the context does not have. -/
structure CarriedAt (place : ℤ) : Prop where
  onPlace : ∀ q ∈ b.nav :: b.owed :: b.held.flatMap (·.amounts), OnGrid (placeUnit place) q
  small : ((b.nav :: b.owed :: b.held.flatMap (·.amounts)).map (|·|)).sum <
    placeUnit (place + accountingPrecision)

end MarginBook

/-! ## Figures that are carried -/

namespace MarginedPosition

variable (p : MarginedPosition)

def weight : Decimal := (p.amounts.map (|·|)).sum

theorem initial_pos (terms : InstrumentMarginTerms) : 0 < terms.initial :=
  terms.maintenance_pos.trans_le terms.maintenance_le

theorem exactUnit_nonneg (hbasis : p.terms.basis = .valueRate)
    (himproves : 0 < p.exactUnitInitial + p.exactUnitHeldBack) : 0 ≤ p.exactUnit := by
  by_contra hneg
  have hinitial := mul_neg_of_neg_of_pos (not_le.mp hneg) (initial_pos p.terms)
  have hhaircut := mul_nonpos_of_nonpos_of_nonneg (not_le.mp hneg).le p.terms.haircut_nonneg
  simp only [exactUnitInitial, exactUnitHeldBack, hbasis] at himproves
  split_ifs at himproves <;> linarith

theorem exactInitial_eq (himproves : 0 < p.exactUnitInitial + p.exactUnitHeldBack) :
    p.exactInitial = |p.position.quantity| * p.exactUnitInitial := by
  cases hbasis : p.terms.basis with
  | valueRate =>
    have hunit := p.exactUnit_nonneg hbasis himproves
    simp only [exactInitial, exactUnitInitial, hbasis]
    rw [abs_mul, abs_of_nonneg hunit, mul_assoc]
  | perContract => simp only [exactInitial, exactUnitInitial, hbasis]

section
variable {p} {place : ℤ} (hplace : ∀ q ∈ p.amounts, OnGrid (placeUnit place) q)
  (hsmall : p.weight < placeUnit (place + accountingPrecision))
include hplace hsmall

theorem inContext_amount {q : Decimal} (hq : q ∈ p.amounts) : inContext q = q := by
  refine roundSig_of_onGrid (by decide) (hplace q hq) (lt_of_le_of_lt ?_ hsmall)
  refine List.single_le_sum (fun x hx => ?_) _ (List.mem_map_of_mem hq)
  obtain ⟨y, -, rfl⟩ := List.mem_map.mp hx
  exact abs_nonneg y

theorem value_eq : p.value = |p.position.quantity| * p.exactUnit := by
  have hgross : multiply |p.position.quantity| p.position.marketPrice =
      |p.position.quantity| * p.position.marketPrice :=
    inContext_amount hplace hsmall (by simp [amounts])
  have hvalue := inContext_amount hplace hsmall
    (q := |p.position.quantity| * p.exactUnit) (by simp [amounts])
  unfold value
  rw [hgross, multiply, mul_assoc]
  exact hvalue

theorem unitValue_eq (hheld : p.position.quantity ≠ 0) : p.unitValue = p.exactUnit := by
  have hunit := inContext_amount hplace hsmall (q := p.exactUnit) (by simp [amounts])
  rw [unitValue, value_eq hplace hsmall, divide, mul_div_cancel_left₀ _ (abs_ne_zero.mpr hheld)]
  exact hunit

/-- **What is required for a position**, carried. -/
theorem holding_initial : p.holding.initial = p.exactInitial := by
  have hexact := inContext_amount hplace hsmall (q := p.exactInitial) (by simp [amounts])
  change p.terms.requirement p.position.quantity p.value p.terms.initial = p.exactInitial
  rw [← hexact, value_eq hplace hsmall]
  cases hbasis : p.terms.basis with
  | valueRate =>
    simp only [InstrumentMarginTerms.requirement, exactInitial, hbasis]
    rw [multiply, abs_mul, abs_abs, ← abs_mul]
  | perContract =>
    simp only [InstrumentMarginTerms.requirement, exactInitial, hbasis]
    rfl

theorem heldBack_eq : p.heldBack = p.exactHeldBack := by
  have hexact := inContext_amount hplace hsmall (q := p.exactHeldBack) (by simp [amounts])
  rw [← hexact, heldBack, value_eq hplace hsmall, exactHeldBack, exactUnitHeldBack]
  split_ifs
  · rw [multiply, mul_assoc]
  · simp

theorem holding_improvement (hheld : p.position.quantity ≠ 0) :
    p.holding.improvement = p.exactUnitInitial + p.exactUnitHeldBack := by
  have hunit := unitValue_eq hplace hsmall hheld
  have hinitial : p.holding.unitInitial = p.exactUnitInitial := by
    have hexact := inContext_amount hplace hsmall (q := p.exactUnitInitial) (by simp [amounts])
    change p.unitRequirement p.terms.initial = p.exactUnitInitial
    unfold unitRequirement
    rw [hunit]
    cases hbasis : p.terms.basis with
    | valueRate =>
      simp only [exactUnitInitial, hbasis] at hexact ⊢
      exact hexact
    | perContract => simp only [exactUnitInitial, hbasis]
  have hcollateral : p.holding.unitCollateral = p.exactUnitHeldBack := by
    have hexact := inContext_amount hplace hsmall (q := p.exactUnitHeldBack) (by simp [amounts])
    change (if p.isCollateral then multiply p.unitValue p.terms.haircut else 0) = _
    rw [hunit]
    unfold exactUnitHeldBack at *
    split_ifs at hexact ⊢
    · exact hexact
    · rfl
  have hadd : add p.exactUnitInitial p.exactUnitHeldBack =
      p.exactUnitInitial + p.exactUnitHeldBack := by
    refine roundSig_of_onGrid (by decide)
      ((hplace _ (by simp [amounts])).add (hplace _ (by simp [amounts]))) ?_
    refine lt_of_le_of_lt (abs_add_le _ _) (lt_of_le_of_lt ?_ hsmall)
    simp only [weight, amounts, List.map_cons, List.map_nil, List.sum_cons, List.sum_nil]
    linarith [abs_nonneg (|p.position.quantity| * p.position.marketPrice),
      abs_nonneg (|p.position.quantity| * p.exactUnit), abs_nonneg p.exactUnit,
      abs_nonneg p.exactInitial, abs_nonneg p.exactHeldBack]
  rw [MarginHolding.improvement, hinitial, hcollateral]
  exact hadd

theorem improvement_carried (himproves : 0 < p.exactUnitInitial + p.exactUnitHeldBack) :
    OnGrid (placeUnit place)
        (|p.position.quantity| * (p.exactUnitInitial + p.exactUnitHeldBack)) ∧
      |p.position.quantity| * (p.exactUnitInitial + p.exactUnitHeldBack) <
        placeUnit (place + accountingPrecision) := by
  have hsum : |p.position.quantity| * (p.exactUnitInitial + p.exactUnitHeldBack) =
      p.exactInitial + p.exactHeldBack := by
    rw [p.exactInitial_eq himproves, exactHeldBack, mul_add]
  rw [hsum]
  refine ⟨(hplace _ (by simp [amounts])).add (hplace _ (by simp [amounts])), ?_⟩
  refine lt_of_le_of_lt ?_ hsmall
  simp only [weight, amounts, List.map_cons, List.map_nil, List.sum_cons, List.sum_nil]
  linarith [abs_nonneg (|p.position.quantity| * p.position.marketPrice),
    abs_nonneg (|p.position.quantity| * p.exactUnit), abs_nonneg p.exactUnit,
    abs_nonneg p.exactUnitInitial, abs_nonneg p.exactUnitHeldBack, le_abs_self p.exactInitial,
    le_abs_self p.exactHeldBack]

end

/-- **A sale at the mark** lowers what is required and held back by what its units improve. -/
theorem sell_exact {sold : Decimal} (hsold : 0 ≤ sold) (hle : sold ≤ |p.position.quantity|)
    (himproves : sold = 0 ∨ 0 < p.exactUnitInitial + p.exactUnitHeldBack) :
    (p.sell sold).exactInitial + (p.sell sold).exactHeldBack =
      p.exactInitial + p.exactHeldBack - sold * (p.exactUnitInitial + p.exactUnitHeldBack) := by
  rcases himproves with rfl | himproves
  · have hsame : p.sell 0 = p := by simp [sell]
    rw [hsame]
    ring
  have hfactor : (p.sell sold).position.quantity =
      p.holding.sign * (|p.position.quantity| - sold) := by
    have hsign := p.holding.sign_mul_abs
    change p.holding.sign * |p.position.quantity| = p.position.quantity at hsign
    change p.position.quantity - p.holding.sign * sold = _
    rw [mul_sub, hsign]
  have hquantity : |(p.sell sold).position.quantity| = |p.position.quantity| - sold := by
    rw [hfactor, abs_mul, abs_of_nonneg (sub_nonneg.mpr hle)]
    unfold MarginHolding.sign
    split_ifs <;> simp
  have hinitial : (p.sell sold).exactInitial =
      |(p.sell sold).position.quantity| * p.exactUnitInitial := by
    change (match p.terms.basis with
      | .valueRate => |(p.sell sold).position.quantity * p.exactUnit| * p.terms.initial
      | .perContract => |(p.sell sold).position.quantity| * p.terms.initial) = _
    cases hbasis : p.terms.basis with
    | valueRate =>
      have hunit := p.exactUnit_nonneg hbasis himproves
      simp only [exactUnitInitial, hbasis]
      rw [abs_mul, abs_of_nonneg hunit, mul_assoc]
    | perContract => simp only [exactUnitInitial, hbasis]
  have hheldBack : (p.sell sold).exactHeldBack =
      |(p.sell sold).position.quantity| * p.exactUnitHeldBack := by
    rcases hle.lt_or_eq with hless | hall
    · -- what is left is on the side that was held
      have hside : 0 < (p.sell sold).position.quantity ↔ 0 < p.position.quantity := by
        rw [hfactor]
        unfold MarginHolding.sign
        change 0 < (if 0 < p.position.quantity then (1 : Decimal) else -1) * _ ↔ _
        split_ifs with hlong
        · simpa [hlong] using hless
        · simpa [hlong] using hle
      have hcollateral : (p.sell sold).isCollateral = p.isCollateral := by
        unfold isCollateral
        rw [decide_eq_decide.mpr hside]
        rfl
      change |(p.sell sold).position.quantity| *
        (if (p.sell sold).isCollateral then p.exactUnit * p.terms.haircut else 0) = _
      rw [hcollateral]
      rfl
    · rw [exactHeldBack, hquantity, hall, sub_self, zero_mul, zero_mul]
  rw [hinitial, hheldBack, hquantity, p.exactInitial_eq himproves, exactHeldBack]
  ring

end MarginedPosition

/-! ## The account's figures -/

theorem soldOfAsset_cons (r : MarginHolding × Decimal) (sales : List (MarginHolding × Decimal))
    (assetId : String) : soldOfAsset (r :: sales) assetId =
      (if r.1.assetId = assetId then r.2 else 0) + soldOfAsset sales assetId := by
  simp [soldOfAsset]

theorem soldOfAsset_of_notMem {sales : List (MarginHolding × Decimal)} {assetId : String}
    (h : assetId ∉ sales.map (·.1.assetId)) : soldOfAsset sales assetId = 0 := by
  refine List.sum_eq_zero fun x hx => ?_
  obtain ⟨r, hr, rfl⟩ := List.mem_map.mp hx
  refine if_neg ?_
  rintro rfl
  exact h (List.mem_map_of_mem hr)

theorem soldOfAsset_of_mem {sales : List (MarginHolding × Decimal)}
    (hnodup : (sales.map (·.1.assetId)).Nodup) {r : MarginHolding × Decimal} (hr : r ∈ sales) :
    soldOfAsset sales r.1.assetId = r.2 := by
  induction sales with
  | nil => nomatch hr
  | cons r' sales ih =>
    obtain ⟨hnotMem, hnodup⟩ := List.nodup_cons.mp hnodup
    rw [soldOfAsset_cons]
    rcases List.mem_cons.mp hr with rfl | hr
    · rw [if_pos rfl, soldOfAsset_of_notMem hnotMem, add_zero]
    · have hne : r'.1.assetId ≠ r.1.assetId := by
        intro heq
        refine hnotMem ?_
        dsimp only
        rw [heq]
        exact List.mem_map_of_mem hr
      rw [if_neg hne, ih hnodup hr, zero_add]

namespace MarginBook

variable {b : MarginBook} {place : ℤ}

theorem sum_held {f : MarginedPosition → Decimal}
    (hzero : ∀ p, p.position.quantity = 0 → f p = 0) :
    (b.held.map f).sum = (b.positions.map f).sum := by
  unfold held
  induction b.positions with
  | nil => rfl
  | cons p l ih =>
    rw [List.filter_cons, List.map_cons, List.sum_cons]
    split_ifs with hheld
    · rw [List.map_cons, List.sum_cons, ih]
    · rw [hzero p (by simpa using hheld), zero_add, ih]

theorem exactInitial_zero (p : MarginedPosition) (h : p.position.quantity = 0) :
    p.exactInitial = 0 := by
  cases hbasis : p.terms.basis <;> simp [MarginedPosition.exactInitial, hbasis, h]

theorem exactHeldBack_zero (p : MarginedPosition) (h : p.position.quantity = 0) :
    p.exactHeldBack = 0 := by
  simp [MarginedPosition.exactHeldBack, h]

theorem CarriedAt.weights (h : b.CarriedAt place) :
    |b.nav| + |b.owed| + (b.held.map (·.weight)).sum < placeUnit (place + accountingPrecision) := by
  have hsum : ((b.held.flatMap (·.amounts)).map (|·|)).sum = (b.held.map (·.weight)).sum := by
    rw [List.map_flatMap, List.flatMap_def, List.sum_flatten, List.map_map]
    rfl
  have hsmall := h.small
  rw [List.map_cons, List.map_cons, List.sum_cons, List.sum_cons, hsum] at hsmall
  linarith

theorem weight_nonneg (p : MarginedPosition) : 0 ≤ p.weight := by
  refine List.sum_nonneg fun x hx => ?_
  obtain ⟨y, -, rfl⟩ := List.mem_map.mp hx
  exact abs_nonneg y

theorem CarriedAt.position (h : b.CarriedAt place) {p : MarginedPosition} (hp : p ∈ b.held) :
    (∀ q ∈ p.amounts, OnGrid (placeUnit place) q) ∧
      p.weight < placeUnit (place + accountingPrecision) := by
  constructor
  · intro q hq
    refine h.onPlace q (List.mem_cons_of_mem _ (List.mem_cons_of_mem _ ?_))
    exact List.mem_flatMap.mpr ⟨p, hp, hq⟩
  · have hle : p.weight ≤ (b.held.map (·.weight)).sum := by
      refine List.single_le_sum (fun x hx => ?_) _ (List.mem_map_of_mem hp)
      obtain ⟨p', -, rfl⟩ := List.mem_map.mp hx
      exact weight_nonneg p'
    linarith [h.weights, abs_nonneg b.nav, abs_nonneg b.owed]

section
variable (hfits : b.CarriedAt place)
include hfits

theorem exactInitial_fits :
    OnGrid (placeUnit place) b.exactInitial ∧
      |b.exactInitial| ≤ (b.held.map fun p => |p.exactInitial|).sum := by
  rw [exactInitial, ← sum_held exactInitial_zero]
  constructor
  · refine OnGrid.sum fun q hq => ?_
    obtain ⟨p, hp, rfl⟩ := List.mem_map.mp hq
    exact (hfits.position hp).1 _ (by simp [MarginedPosition.amounts])
  · have habs := abs_sum_le (b.held.map (·.exactInitial))
    rwa [List.map_map] at habs

theorem exactHeldBack_fits :
    OnGrid (placeUnit place) (b.positions.map (·.exactHeldBack)).sum ∧
      |(b.positions.map (·.exactHeldBack)).sum| ≤
        (b.held.map fun p => |p.exactHeldBack|).sum := by
  rw [← sum_held exactHeldBack_zero]
  constructor
  · refine OnGrid.sum fun q hq => ?_
    obtain ⟨p, hp, rfl⟩ := List.mem_map.mp hq
    exact (hfits.position hp).1 _ (by simp [MarginedPosition.amounts])
  · have habs := abs_sum_le (b.held.map (·.exactHeldBack))
    rwa [List.map_map] at habs

omit hfits in
theorem sums_le_weights :
    (b.held.map fun p => |p.exactInitial|).sum + (b.held.map fun p => |p.exactHeldBack|).sum ≤
      (b.held.map (·.weight)).sum := by
  rw [← List.sum_map_add]
  refine List.sum_le_sum fun p _ => ?_
  simp only [MarginedPosition.weight, MarginedPosition.amounts, List.map_cons, List.map_nil,
    List.sum_cons, List.sum_nil]
  linarith [abs_nonneg (|p.position.quantity| * p.position.marketPrice),
    abs_nonneg (|p.position.quantity| * p.exactUnit), abs_nonneg p.exactUnit,
    abs_nonneg p.exactUnitInitial, abs_nonneg p.exactUnitHeldBack]

theorem sum_initial : sumInContext (b.holdings.map (·.initial)) = b.exactInitial := by
  have hweights := hfits.weights
  have hsums := sums_le_weights (b := b)
  have hheldNonneg : 0 ≤ (b.held.map fun p => |p.exactHeldBack|).sum :=
    (abs_nonneg _).trans (exactHeldBack_fits hfits).2
  have hperm : (b.holdings.map (·.initial)).Perm (b.held.map (·.exactInitial)) := by
    refine (b.holdings_perm.map _).trans (List.Perm.of_eq ?_)
    rw [List.map_map]
    refine List.map_congr_left fun p hp => ?_
    obtain ⟨hplace, hsmall⟩ := hfits.position hp
    exact MarginedPosition.holding_initial hplace hsmall
  rw [@sumInContext_carried place, hperm.sum_eq, exactInitial,
    ← sum_held exactInitial_zero]
  · intro q hq
    obtain ⟨p, hp, rfl⟩ := List.mem_map.mp (hperm.mem_iff.mp hq)
    exact (hfits.position hp).1 _ (by simp [MarginedPosition.amounts])
  · rw [(hperm.map _).sum_eq, List.map_map]
    refine lt_of_le_of_lt ?_ hweights
    change (b.held.map fun p => |p.exactInitial|).sum ≤ _
    linarith [abs_nonneg b.nav, abs_nonneg b.owed]

theorem sum_heldBack : sumInContext (b.held.map (·.heldBack)) =
    (b.positions.map (·.exactHeldBack)).sum := by
  have hweights := hfits.weights
  have hsums := sums_le_weights (b := b)
  have hinitialNonneg : 0 ≤ (b.held.map fun p => |p.exactInitial|).sum :=
    (abs_nonneg _).trans (exactInitial_fits hfits).2
  have hmap : b.held.map (·.heldBack) = b.held.map (·.exactHeldBack) := by
    refine List.map_congr_left fun p hp => ?_
    obtain ⟨hplace, hsmall⟩ := hfits.position hp
    exact MarginedPosition.heldBack_eq hplace hsmall
  rw [hmap, @sumInContext_carried place, ← sum_held exactHeldBack_zero]
  · intro q hq
    obtain ⟨p, hp, rfl⟩ := List.mem_map.mp hq
    exact (hfits.position hp).1 _ (by simp [MarginedPosition.amounts])
  · rw [List.map_map]
    refine lt_of_le_of_lt ?_ hweights
    change (b.held.map fun p => |p.exactHeldBack|).sum ≤ _
    linarith [abs_nonneg b.nav, abs_nonneg b.owed]

/-- **The account's margin**, carried, is what it is in exact arithmetic. -/
theorem marginPosition_exact (hmodel : b.model = none) {m : MarginPosition}
    (hm : b.marginPosition = some m) :
    m.initial = b.exactInitial ∧ m.equity = b.exactEquity ∧ m.deficit = b.exactDeficit ∧
      m.holdings = b.holdings := by
  have hweights := hfits.weights
  have hsums := sums_le_weights (b := b)
  obtain ⟨hinitialGrid, hinitialAbs⟩ := exactInitial_fits hfits
  obtain ⟨hheldGrid, hheldAbs⟩ := exactHeldBack_fits hfits
  have hnavGrid : OnGrid (placeUnit place) b.nav := hfits.onPlace _ (by simp)
  have howedGrid : OnGrid (placeUnit place) b.owed := hfits.onPlace _ (by simp)
  have hinitialNonneg : 0 ≤ (b.held.map fun p => |p.exactInitial|).sum :=
    (abs_nonneg _).trans hinitialAbs
  have hinitial := sum_initial hfits
  have hheldBack := sum_heldBack hfits
  set held := (b.positions.map (·.exactHeldBack)).sum with hheld
  have howed : add held b.owed = held + b.owed := by
    refine roundSig_of_onGrid (by decide) (hheldGrid.add howedGrid) ?_
    refine lt_of_le_of_lt (abs_add_le _ _) (lt_of_le_of_lt ?_ hweights)
    linarith [abs_nonneg b.nav]
  have hequity : subtract b.nav (held + b.owed) = b.exactEquity := by
    have habs := abs_sub b.nav (held + b.owed)
    refine roundSig_of_onGrid (by decide) (hnavGrid.sub (hheldGrid.add howedGrid)) ?_
    refine lt_of_le_of_lt habs (lt_of_le_of_lt ?_ hweights)
    linarith [abs_add_le held b.owed]
  have hdeficit : subtract b.exactInitial b.exactEquity = b.exactInitial - b.exactEquity := by
    have hgrid := hinitialGrid.sub (hnavGrid.sub (hheldGrid.add howedGrid))
    refine roundSig_of_onGrid (by decide) hgrid ?_
    refine lt_of_le_of_lt (abs_sub _ _) (lt_of_le_of_lt ?_ hweights)
    have habs : |b.exactEquity| ≤ |b.nav| + (|held| + |b.owed|) :=
      (abs_sub _ _).trans (add_le_add_right (abs_add_le _ _) _)
    linarith
  unfold marginPosition at hm
  split_ifs at hm
  rw [hmodel] at hm
  obtain rfl := Option.some.inj hm
  refine ⟨hinitial, ?_, ?_, rfl⟩
  · change subtract b.nav (add (sumInContext (b.held.map (·.heldBack))) b.owed) = _
    rw [hheldBack, howed, hequity]
  · change max 0 (subtract (sumInContext (b.holdings.map (·.initial)))
      (subtract b.nav (add (sumInContext (b.held.map (·.heldBack))) b.owed))) = _
    rw [hinitial, hheldBack, howed, hequity, hdeficit]
    rfl

theorem exactDeficit_carried :
    OnGrid (placeUnit place) b.exactDeficit ∧
      b.exactDeficit < placeUnit (place + accountingPrecision) := by
  have hweights := hfits.weights
  have hsums := sums_le_weights (b := b)
  obtain ⟨hinitialGrid, hinitialAbs⟩ := exactInitial_fits hfits
  obtain ⟨hheldGrid, hheldAbs⟩ := exactHeldBack_fits hfits
  have hnavGrid : OnGrid (placeUnit place) b.nav := hfits.onPlace _ (by simp)
  have howedGrid : OnGrid (placeUnit place) b.owed := hfits.onPlace _ (by simp)
  have hgrid := hinitialGrid.sub (hnavGrid.sub (hheldGrid.add howedGrid))
  change OnGrid (placeUnit place) (b.exactInitial - b.exactEquity) at hgrid
  unfold exactDeficit
  constructor
  · rcases max_choice 0 (b.exactInitial - b.exactEquity) with hmax | hmax
    · rw [hmax]
      exact onGrid_zero _
    · rwa [hmax]
  · refine max_lt (zpow_pos (by norm_num) _) (lt_of_le_of_lt ?_ hweights)
    unfold exactEquity
    linarith [le_abs_self b.exactInitial, neg_le_abs b.nav, le_abs_self b.owed,
      le_abs_self (b.positions.map (·.exactHeldBack)).sum]

omit hfits in
theorem mem_holdings {h : MarginHolding} : h ∈ b.holdings ↔ ∃ p ∈ b.held, p.holding = h := by
  rw [b.holdings_perm.mem_iff, List.mem_map]

end

theorem sum_of_asset {p₀ : MarginedPosition} (hp₀ : p₀ ∈ b.positions)
    (f : MarginedPosition → Decimal) :
    (b.positions.map fun p => if p₀.assetId = p.assetId then f p else 0).sum = f p₀ := by
  have hnodup : b.positions.Nodup := b.nodup.of_map _
  rw [List.sum_map_eq_nsmul_single p₀, List.count_eq_one_of_mem hnodup hp₀, one_nsmul,
    if_pos rfl]
  intro p hne hp
  exact if_neg fun heq => hne (List.inj_on_of_nodup_map b.nodup hp hp₀ heq.symm)

/-- **What sales at the marks leave short** is what was short less what their units improve. -/
theorem deficit_afterSales (hfits : b.CarriedAt place)
    {sales : List (MarginHolding × Decimal)} (hnodup : (sales.map (·.1.assetId)).Nodup)
    (hsales : ∀ r ∈ sales, r.1 ∈ b.holdings ∧ 0 < r.1.improvement ∧ 0 < r.2 ∧
      r.2 ≤ |r.1.quantity|) :
    (b.afterSales sales).exactInitial - (b.afterSales sales).exactEquity =
      b.exactInitial - b.exactEquity - improvedBy sales := by
  have hread : ∀ r ∈ sales, ∃ p ∈ b.positions, p.holding = r.1 ∧
      r.1.improvement = p.exactUnitInitial + p.exactUnitHeldBack := by
    intro r hr
    obtain ⟨p, hp, hholding⟩ := mem_holdings.mp (hsales r hr).1
    obtain ⟨hplace, hsmall⟩ := hfits.position hp
    obtain ⟨hmem, hheld⟩ := List.mem_filter.mp hp
    refine ⟨p, hmem, hholding, ?_⟩
    rw [← hholding]
    exact MarginedPosition.holding_improvement hplace hsmall (by simpa using hheld)
  have hsell : ∀ p ∈ b.positions,
      (p.sell (soldOfAsset sales p.assetId)).exactInitial +
        (p.sell (soldOfAsset sales p.assetId)).exactHeldBack =
      p.exactInitial + p.exactHeldBack -
        soldOfAsset sales p.assetId * (p.exactUnitInitial + p.exactUnitHeldBack) := by
    intro p hp
    by_cases hsold : p.assetId ∈ sales.map (·.1.assetId)
    · obtain ⟨r, hr, hid⟩ := List.mem_map.mp hsold
      obtain ⟨p', hp', hholding, himprovement⟩ := hread r hr
      obtain ⟨-, himproves, hpositive, hle⟩ := hsales r hr
      obtain rfl : p' = p := by
        refine List.inj_on_of_nodup_map b.nodup hp' hp ?_
        rw [← hid, ← hholding]
        rfl
      rw [← hid, soldOfAsset_of_mem hnodup hr]
      refine p'.sell_exact hpositive.le ?_ (Or.inr (himprovement ▸ himproves))
      rwa [← hholding] at hle
    · rw [soldOfAsset_of_notMem hsold]
      exact p.sell_exact le_rfl (abs_nonneg _) (Or.inl rfl)
  have himproved : (b.positions.map fun p => soldOfAsset sales p.assetId *
      (p.exactUnitInitial + p.exactUnitHeldBack)).sum = improvedBy sales := by
    clear hnodup hsales hsell
    induction sales with
    | nil => simp [soldOfAsset, improvedBy]
    | cons r sales ih =>
      obtain ⟨p, hp, hholding, himprovement⟩ := hread r List.mem_cons_self
      have hone := sum_of_asset hp fun p => r.2 * (p.exactUnitInitial + p.exactUnitHeldBack)
      rw [improvedBy_cons, ← ih fun r' hr' => hread r' (List.mem_cons_of_mem _ hr'), himprovement,
        ← hone, ← List.sum_map_add]
      congr 1
      refine List.map_congr_left fun p' _ => ?_
      rw [soldOfAsset_cons, ← hholding]
      change ((if p.assetId = p'.assetId then r.2 else 0) + _) * _ = _
      split_ifs <;> ring
  have hsums : ((b.afterSales sales).positions.map (·.exactInitial)).sum +
      ((b.afterSales sales).positions.map (·.exactHeldBack)).sum + improvedBy sales =
      (b.positions.map (·.exactInitial)).sum + (b.positions.map (·.exactHeldBack)).sum := by
    have hpositions : (b.afterSales sales).positions =
        b.positions.map fun p => p.sell (soldOfAsset sales p.assetId) := rfl
    rw [hpositions, List.map_map, List.map_map, ← himproved, ← List.sum_map_add,
      ← List.sum_map_add, ← List.sum_map_add]
    congr 1
    refine List.map_congr_left fun p hp => ?_
    have hsold := hsell p hp
    simp only [Function.comp_apply]
    linarith
  have hnav : (b.afterSales sales).nav = b.nav := rfl
  have howed : (b.afterSales sales).owed = b.owed := rfl
  unfold exactEquity
  rw [hnav, howed]
  unfold exactInitial
  linarith

/-- **A liquidation of a book**: it sells of holdings that can be sold, some of each and no more
    than it; the book is then restored, or all is sold of every holding that can be sold and
    improves it; and nothing is sold of a holding after one that can be sold and has some left. -/
structure Liquidates (b : MarginBook) (sellable : MarginHolding → Bool)
    (sales : List (MarginHolding × Decimal)) : Prop where
  sold : ∀ r ∈ sales, r.1 ∈ b.holdings ∧ sellable r.1 = true ∧ 0 < r.2 ∧ r.2 ≤ |r.1.quantity|
  restores : (b.afterSales sales).exactInitial ≤ (b.afterSales sales).exactEquity ∨
    ∀ h ∈ b.holdings, sellable h = true → 0 < h.improvement → (h, |h.quantity|) ∈ sales
  inOrder : SoldInOrder sellable b.holdings sales

end MarginBook

theorem liquidationStep_pos (c : SimulationConfig) (h : MarginHolding) :
    ∀ u ∈ c.liquidationStep h, 0 < u := by
  intro u hu
  unfold SimulationConfig.liquidationStep SimulationConfig.tradingStep at hu
  split at hu
  · rename_i lot _
    obtain rfl := Option.some.inj hu
    exact lot.lotSize_pos
  · split_ifs at hu
    · obtain rfl := Option.some.inj hu
      exact zero_lt_one
    · nomatch hu

/-- **A liquidation of positions margined on their own restores the initial requirement, or
    sells all it can, in order, iff the quotients that decide it are not rounded down**, where
    the figures of the book are carried. -/
theorem reductions_restore_iff (c : SimulationConfig) (s : PipelineState) (b : MarginBook)
    (place : ℤ) (hfits : b.CarriedAt place) (hmodel : b.model = none) (m : MarginPosition)
    (hm : b.marginPosition = some m) :
    b.Liquidates s.sellable (s.perPositionReductions c m) ↔
      Covers c.liquidationStep s.sellable b.exactDeficit b.holdings := by
  obtain ⟨-, -, hdeficit, hholdings⟩ := MarginBook.marginPosition_exact hfits hmodel hm
  obtain ⟨hplace, hsmall⟩ := MarginBook.exactDeficit_carried hfits
  have hplan : s.perPositionReductions c m =
      reduceFrom c.liquidationStep s.sellable b.exactDeficit b.holdings := by
    unfold PipelineState.perPositionReductions
    rw [hdeficit, hholdings]
  have hread : ∀ h ∈ b.holdings, h.quantity ≠ 0 ∧ (0 < h.improvement →
      OnGrid (placeUnit place) (|h.quantity| * h.improvement) ∧
        |h.quantity| * h.improvement < placeUnit (place + accountingPrecision)) := by
    intro h hh
    obtain ⟨p, hp, rfl⟩ := MarginBook.mem_holdings.mp hh
    obtain ⟨hgrid, hweight⟩ := hfits.position hp
    have hheld : p.position.quantity ≠ 0 := by simpa using (List.mem_filter.mp hp).2
    refine ⟨hheld, fun himproves => ?_⟩
    rw [MarginedPosition.holding_improvement hgrid hweight hheld] at himproves ⊢
    exact MarginedPosition.improvement_carried hgrid hweight himproves
  have hiff : Restores s.sellable b.exactDeficit b.holdings
      (reduceFrom c.liquidationStep s.sellable b.exactDeficit b.holdings) ↔
      Covers c.liquidationStep s.sellable b.exactDeficit b.holdings :=
    restores_iff (b.holdings_nodup.of_map _) (fun h _ => liquidationStep_pos c h)
      (fun h hh => (hread h hh).1) (fun h hh => (hread h hh).2) hplace hsmall
  rw [hplan, ← hiff]
  set sales := reduceFrom c.liquidationStep s.sellable b.exactDeficit b.holdings
  have hnodup : (sales.map (·.1.assetId)).Nodup := by
    have hsold : (sales.map (·.1)).Sublist b.holdings := reduceFrom_sublist
    have hsub := hsold.map (·.assetId)
    rw [List.map_map] at hsub
    exact hsub.nodup b.holdings_nodup
  have hafter := MarginBook.deficit_afterSales hfits hnodup fun r hr => by
    obtain ⟨hmem, -, himproves, hpositive, hle⟩ := mem_reduceFrom hr
    exact ⟨hmem, himproves, hpositive, hle⟩
  have hrestored : (b.afterSales sales).exactInitial ≤ (b.afterSales sales).exactEquity ↔
      b.exactDeficit ≤ improvedBy sales := by
    rw [MarginBook.exactDeficit, max_le_iff, and_iff_right improvedBy_nonneg]
    constructor <;> intro h <;> linarith
  constructor
  · rintro ⟨-, hrestores, horder⟩
    exact ⟨hrestores.imp hrestored.mp id, horder⟩
  · rintro ⟨hrestores, horder⟩
    refine ⟨fun r hr => ?_, hrestores.imp hrestored.mpr id, horder⟩
    obtain ⟨hmem, hsellable, -, hpositive, hle⟩ := mem_reduceFrom hr
    exact ⟨hmem, hsellable, hpositive, hle⟩

/-- A position at ten a unit, of which three is required at first and two and a half then. -/
def stockAtTen (assetId : String) (quantity : Decimal) : MarginedPosition where
  assetId := assetId
  position := {
    assetId := assetId
    quantity := quantity
    averageCost := 10
    marketPrice := 10
    realizedPnl := 0
    currency := "USD"
    lastUpdated := 0
    costBasis := none
    openedAt := none
    minorUnits := some 2
    economics := none
    minorUnits_le := by decide
    unitKnown := rfl }
  terms := { basis := .valueRate, initial := 0.3, maintenance := 0.25 }

def shortOfHundred (quantity : Decimal) : MarginBook where
  nav := 3 * quantity + 30 - 100
  positions := [stockAtTen "A" quantity, stockAtTen "B" 10]
  nodup := by simp [stockAtTen]

/-- A run whose strategy holds some of A and ten of B, both priced at ten. -/
def stockRun (quantity : Decimal) : PipelineState where
  orders := Register.empty
  allocation := { budget := { globalCapital := 10000, maximumExposure := 10000 },
                  strategyPositions := some (Dict.empty.set "S"
                    ((Dict.empty.set "A" quantity).set "B" 10)) }
  portfolio := thousandHeld
  marketPrices := (Dict.empty.set "A" 10).set "B" 10

/-- Of a hundred units of A, thirty-four are sold: three a unit, and the hundred is restored. -/
theorem reductions_restore_iff_whole :
    ∃ m, (shortOfHundred 100).marginPosition = some m ∧
      (shortOfHundred 100).Liquidates (stockRun 100).sellable
        ((stockRun 100).perPositionReductions plainSimulation m) := by
  obtain ⟨m, hm, -⟩ := exists_some_of (o := (shortOfHundred 100).marginPosition)
    (fun m => m.InBreach) (by decide +kernel)
  refine ⟨m, hm, ?_⟩
  have hfits : (shortOfHundred 100).CarriedAt (-2) := ⟨by decide +kernel, by decide +kernel⟩
  exact (reductions_restore_iff plainSimulation (stockRun 100) (shortOfHundred 100) (-2) hfits rfl
    m hm).mpr (by decide +kernel)

/-- **A third of a hundred units is rounded down** where half a unit of A lets it be sold in
    fractions: what is left is restored by a whole unit of B. -/
theorem fraction_rounded_down :
    ∃ m, (shortOfHundred 100.5).marginPosition = some m ∧ m.InBreach ∧
      ¬ (shortOfHundred 100.5).Liquidates (stockRun 100.5).sellable
        ((stockRun 100.5).perPositionReductions plainSimulation m) := by
  obtain ⟨m, hm, hbreach, horder⟩ := exists_some_of (o := (shortOfHundred 100.5).marginPosition)
    (fun m => m.InBreach ∧ ¬ SoldInOrder (stockRun 100.5).sellable (shortOfHundred 100.5).holdings
      ((stockRun 100.5).perPositionReductions plainSimulation m)) (by decide +kernel)
  exact ⟨m, hm, hbreach, fun h => horder h.inOrder⟩

end AlphaLab
