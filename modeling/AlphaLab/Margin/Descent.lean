/-
  A liquidation under a margin model (`_model_reductions` of
  `runtime/execution_pipeline.py`).

  * `MarginPosition.descend` is one holding's turn in the coordinate descent: the step that
    lowers the deficit most, or the least that restores the initial requirement;
  * `Carried`: a holding and its step are on one grid, of few enough digits that what is sold
    and what is left are exact;
  * `descend_kept`: a turn keeps what is sold within the holdings and lowers the deficit;
    `descend_least`: a restoring turn sells the least that restores, where the deficit is
    convex; `model_liquidation` puts them together over the passes.
-/
import AlphaLab.Lib.StepSearch
import AlphaLab.Margin.Position
import AlphaLab.Simulation.AuctionTiers
import AlphaLab.Simulation.ExpiryRuns

namespace AlphaLab

open Rounding StepSearch

/-! ## The descent -/

def fractionalStep : Decimal := 0.000001

def liquidationPasses : ℕ := 4

/-- What the descent holds: the quantities tried last, and what is sold. -/
structure DescentState where
  quantities : Dict String Decimal := Dict.empty
  sold : Dict String Decimal := Dict.empty
  improved : Bool := false

namespace DescentState

variable (s : DescentState)

def soldOf (h : MarginHolding) : Decimal := (s.sold.get? h.assetId).getD 0

end DescentState

namespace MarginHolding

variable (h : MarginHolding)

/-- What is left of a holding with `sold` of it sold. -/
def less (sold : Decimal) : Decimal := subtract h.quantity (multiply h.sign sold)

def left (sold : Decimal) : Decimal := subtract |h.quantity| sold

/-- What is sold of it with `n` steps more. -/
def soldAfter (step sold : Decimal) (n : ℕ) : Decimal :=
  add sold (min (multiply n step) (h.left sold))

def stepsLeft (step sold : Decimal) : ℕ := ⌈divide (h.left sold) step⌉.toNat

end MarginHolding

namespace MarginPosition

variable (m : MarginPosition)

/-- The deficit were the positions `quantities`. -/
def deficitAt (quantities : Dict String Decimal) : Decimal :=
  subtract (m.figures quantities).2.1 (m.figures quantities).1

/-- `at`: the deficit with `n` steps more of a holding sold. -/
def deficitAfter (s : DescentState) (h : MarginHolding) (step : Decimal) (n : ℕ) : Decimal :=
  m.deficitAt (s.quantities.set h.assetId (h.less (h.soldAfter step (s.soldOf h) n)))

/-- The step a turn takes: the best of the search, or the least that restores. -/
def stepTaken (s : DescentState) (h : MarginHolding) (step : Decimal) : ℕ :=
  let best := bestStep (m.deficitAfter s h step) (h.stepsLeft step (s.soldOf h))
  if m.deficitAfter s h step best ≤ 0 then
    leastFrom (fun n => m.deficitAfter s h step n ≤ 0) 0 best
  else best

/-- One holding's turn: it is left alone where there is no deficit, where nothing is left of
    it, and where no reduction of it helps. -/
def descend (step : MarginHolding → Decimal) (s : DescentState) (h : MarginHolding) :
    DescentState :=
  if m.deficitAt s.quantities ≤ 0 ∨ h.left (s.soldOf h) ≤ 0 then s
  else
    let best := bestStep (m.deficitAfter s h (step h)) (h.stepsLeft (step h) (s.soldOf h))
    if m.deficitAt s.quantities ≤ m.deficitAfter s h (step h) best then
      { s with
        quantities := s.quantities.set h.assetId
          (h.less (h.soldAfter (step h) (s.soldOf h) 0)) }
    else
      let sold := h.soldAfter (step h) (s.soldOf h) (m.stepTaken s h (step h))
      { quantities := s.quantities.set h.assetId (h.less sold)
        sold := s.sold.set h.assetId sold
        improved := true }

def onePass (step : MarginHolding → Decimal) (candidates : List MarginHolding)
    (s : DescentState) : DescentState :=
  candidates.foldl (m.descend step) { s with improved := false }

/-- The passes: until one lowers nothing, or the deficit is restored. -/
def passes (step : MarginHolding → Decimal) (candidates : List MarginHolding) :
    ℕ → DescentState → DescentState
  | 0, s => s
  | count + 1, s =>
    let after := m.onePass step candidates s
    if ¬ after.improved ∨ m.deficitAt after.quantities ≤ 0 then after
    else passes step candidates count after

def reductions (candidates : List MarginHolding) (s : DescentState) :
    List (MarginHolding × Decimal) :=
  s.sold.entries.filterMap fun (assetId, quantity) =>
    if 0 < quantity then (candidates.find? (·.assetId = assetId)).map (·, quantity) else none

def modelReductions (step : MarginHolding → Decimal) (candidates : List MarginHolding) :
    List (MarginHolding × Decimal) :=
  reductions candidates (m.passes step candidates liquidationPasses {})

end MarginPosition

/-- What the descent sells a holding in: its step, or a small part of a unit. -/
def SimulationConfig.saleStep (c : SimulationConfig) (h : MarginHolding) : Decimal :=
  (c.liquidationStep h).getD fractionalStep

def PipelineState.modelReductions (s : PipelineState) (c : SimulationConfig)
    (m : MarginPosition) : List (MarginHolding × Decimal) :=
  m.modelReductions c.saleStep (m.holdings.filter s.sellable)

/-! ## What is sold and what is left -/

/-- A holding and the step it is sold in are whole numbers of the unit of one decimal place,
    and the holding needs no digit that the context does not have. -/
def Carried (h : MarginHolding) (step : Decimal) : Prop :=
  ∃ place : ℤ, OnGrid (placeUnit place) h.quantity ∧ OnGrid (placeUnit place) step ∧
    |h.quantity| < placeUnit (place + accountingPrecision)

/-- What may be sold of a holding: none of it or more, not more than it, and a whole number of
    every unit that the holding and its step are whole numbers of. -/
structure MarginHolding.Sells (h : MarginHolding) (step sold : Decimal) : Prop where
  nonneg : 0 ≤ sold
  le : sold ≤ |h.quantity|
  onGrid : ∀ u, OnGrid u h.quantity → OnGrid u step → OnGrid u sold

namespace MarginHolding

variable {h : MarginHolding} {step sold : Decimal}

theorem sells_zero : h.Sells step 0 :=
  ⟨le_rfl, abs_nonneg _, fun _ _ _ => onGrid_zero _⟩

theorem sign_mul_abs (h : MarginHolding) : h.sign * |h.quantity| = h.quantity := by
  unfold sign
  split_ifs with hpos
  · rw [one_mul, abs_of_pos hpos]
  · rw [abs_of_nonpos (not_lt.mp hpos)]
    ring

theorem onGrid_abs {u x : Decimal} (hx : OnGrid u x) : OnGrid u |x| := by
  rcases abs_choice x with habs | habs
  · rwa [habs]
  · rw [habs]
    exact hx.neg

section
variable {place : ℤ} (hholding : OnGrid (placeUnit place) h.quantity)
  (hstep : OnGrid (placeUnit place) step)
  (hsmall : |h.quantity| < placeUnit (place + accountingPrecision))
include hsmall

theorem inContext_carried {x : Decimal} (hx : OnGrid (placeUnit place) x)
    (hle : |x| ≤ |h.quantity|) : inContext x = x :=
  roundSig_of_onGrid (by decide) hx (hle.trans_lt hsmall)

include hholding hstep

theorem left_eq (hsold : h.Sells step sold) : h.left sold = |h.quantity| - sold := by
  refine inContext_carried hsmall
    ((onGrid_abs hholding).sub (hsold.onGrid _ hholding hstep)) ?_
  rw [abs_of_nonneg (sub_nonneg.mpr hsold.le)]
  linarith [hsold.nonneg]

/-- **What is sold after `n` steps more**: the steps, or all that is left. -/
theorem soldAfter_eq (hpos : 0 < step) (hsold : h.Sells step sold) (n : ℕ) :
    h.soldAfter step sold n = sold + min (n * step) (|h.quantity| - sold) := by
  have hleft := left_eq hholding hstep hsmall hsold
  have hnonneg : 0 ≤ |h.quantity| - sold := sub_nonneg.mpr hsold.le
  have hsteps : OnGrid (placeUnit place) ((n : ℚ) * step) := by
    have hmul := OnGrid.int_mul hstep (n : ℤ)
    exact_mod_cast hmul
  have hmore : min (multiply n step) (h.left sold) = min (n * step) (|h.quantity| - sold) := by
    rw [hleft]
    rcases le_or_gt ((n : ℚ) * step) (|h.quantity| - sold) with hle | hgt
    · have hexact : multiply n step = n * step := by
        refine inContext_carried hsmall hsteps ?_
        rw [abs_of_nonneg (mul_nonneg n.cast_nonneg hpos.le)]
        linarith [hsold.nonneg]
      rw [hexact]
    · -- more steps than are left round to no less than what is left
      have hround : |h.quantity| - sold ≤ multiply n step := by
        calc |h.quantity| - sold = inContext (|h.quantity| - sold) := hleft.symm
          _ ≤ multiply n step := inContext_monotone hgt.le
      rw [min_eq_right hround, min_eq_right hgt.le]
  have hgrid : OnGrid (placeUnit place) (min ((n : ℚ) * step) (|h.quantity| - sold)) := by
    rcases min_choice ((n : ℚ) * step) (|h.quantity| - sold) with hmin | hmin
    · rwa [hmin]
    · rw [hmin]
      exact (onGrid_abs hholding).sub (hsold.onGrid _ hholding hstep)
  unfold soldAfter
  rw [hmore]
  refine inContext_carried hsmall ((hsold.onGrid _ hholding hstep).add hgrid) ?_
  rw [abs_of_nonneg (add_nonneg hsold.nonneg
    (le_min (mul_nonneg n.cast_nonneg hpos.le) hnonneg))]
  linarith [min_le_right ((n : ℚ) * step) (|h.quantity| - sold)]

theorem less_eq (hsold : h.Sells step sold) : h.less sold = h.quantity - h.sign * sold := by
  have hsign : multiply h.sign sold = h.sign * sold := by
    have habs : |h.sign * sold| ≤ |h.quantity| := by
      rw [abs_mul, abs_of_nonneg hsold.nonneg]
      unfold sign
      split_ifs
      · simpa using hsold.le
      · simpa using hsold.le
    refine inContext_carried hsmall ?_ habs
    unfold sign
    split_ifs
    · rw [one_mul]
      exact hsold.onGrid _ hholding hstep
    · rw [neg_one_mul]
      exact (hsold.onGrid _ hholding hstep).neg
  have hless : h.quantity - h.sign * sold = h.sign * (|h.quantity| - sold) := by
    rw [mul_sub, sign_mul_abs]
  unfold less
  rw [hsign]
  refine inContext_carried hsmall ?_ ?_
  · rw [hless]
    have hrest := (onGrid_abs hholding).sub (hsold.onGrid _ hholding hstep)
    unfold sign
    split_ifs
    · rwa [one_mul]
    · rw [neg_one_mul]
      exact hrest.neg
  · rw [hless, abs_mul, abs_of_nonneg (sub_nonneg.mpr hsold.le)]
    unfold sign
    split_ifs
    · rw [abs_one, one_mul]
      linarith [hsold.nonneg]
    · rw [abs_neg, abs_one, one_mul]
      linarith [hsold.nonneg]

end

theorem less_of_carried (hcarried : Carried h step) (hsold : h.Sells step sold) :
    h.less sold = h.quantity - h.sign * sold := by
  obtain ⟨place, hholding, hstep, hsmall⟩ := hcarried
  exact less_eq hholding hstep hsmall hsold

theorem Sells.after (hcarried : Carried h step) (hpos : 0 < step) (hsold : h.Sells step sold)
    (n : ℕ) : h.Sells step (h.soldAfter step sold n) := by
  obtain ⟨place, hholding, hstep, hsmall⟩ := hcarried
  have hnonneg : 0 ≤ |h.quantity| - sold := sub_nonneg.mpr hsold.le
  rw [soldAfter_eq hholding hstep hsmall hpos hsold]
  refine ⟨?_, ?_, ?_⟩
  · exact add_nonneg hsold.nonneg (le_min (mul_nonneg n.cast_nonneg hpos.le) hnonneg)
  · linarith [min_le_right ((n : ℚ) * step) (|h.quantity| - sold)]
  · intro u hu hustep
    refine (hsold.onGrid u hu hustep).add ?_
    rcases min_choice ((n : ℚ) * step) (|h.quantity| - sold) with hmin | hmin
    · rw [hmin]
      have hmul := OnGrid.int_mul hustep (n : ℤ)
      exact_mod_cast hmul
    · rw [hmin]
      exact (onGrid_abs hu).sub (hsold.onGrid u hu hustep)

end MarginHolding

/-! ## Turns -/

namespace MarginPosition

variable {m : MarginPosition} {step : MarginHolding → Decimal} {candidates : List MarginHolding}
  {s : DescentState} {h : MarginHolding}

/-- The states of a descent over `candidates`. -/
inductive Descends (m : MarginPosition) (step : MarginHolding → Decimal)
    (candidates : List MarginHolding) : DescentState → Prop where
  | start : Descends m step candidates {}
  | turn {s : DescentState} {h : MarginHolding} : Descends m step candidates s →
      h ∈ candidates → Descends m step candidates (m.descend step s h)
  | again {s : DescentState} : Descends m step candidates s →
      Descends m step candidates { s with improved := false }

def bestOf (m : MarginPosition) (step : MarginHolding → Decimal) (s : DescentState)
    (h : MarginHolding) : ℕ :=
  bestStep (m.deficitAfter s h (step h)) (h.stepsLeft (step h) (s.soldOf h))

/-- **What a turn can be**: none, where nothing is short or left; left alone, where no
    reduction helps; and some of the holding sold. -/
theorem descend_cases (m : MarginPosition) (step : MarginHolding → Decimal) (s : DescentState)
    (h : MarginHolding) :
    (m.deficitAt s.quantities ≤ 0 ∨ h.left (s.soldOf h) ≤ 0) ∧ m.descend step s h = s ∨
      0 < m.deficitAt s.quantities ∧ 0 < h.left (s.soldOf h) ∧
        (m.deficitAt s.quantities ≤ m.deficitAfter s h (step h) (m.bestOf step s h) ∧
            m.descend step s h = { s with
              quantities := s.quantities.set h.assetId
                (h.less (h.soldAfter (step h) (s.soldOf h) 0)) } ∨
          m.deficitAfter s h (step h) (m.bestOf step s h) < m.deficitAt s.quantities ∧
            m.descend step s h = {
              quantities := s.quantities.set h.assetId
                (h.less (h.soldAfter (step h) (s.soldOf h) (m.stepTaken s h (step h))))
              sold := s.sold.set h.assetId
                (h.soldAfter (step h) (s.soldOf h) (m.stepTaken s h (step h)))
              improved := true }) := by
  unfold descend
  by_cases hdone : m.deficitAt s.quantities ≤ 0 ∨ h.left (s.soldOf h) ≤ 0
  · exact Or.inl ⟨hdone, if_pos hdone⟩
  · obtain ⟨hdeficit, hleft⟩ := not_or.mp hdone
    rw [if_neg hdone]
    refine Or.inr ⟨not_le.mp hdeficit, not_le.mp hleft, ?_⟩
    by_cases hhelps : m.deficitAt s.quantities ≤ m.deficitAfter s h (step h) (m.bestOf step s h)
    · exact Or.inl ⟨hhelps, if_pos hhelps⟩
    · exact Or.inr ⟨not_le.mp hhelps, if_neg hhelps⟩

/-- What a descent keeps: what is sold may be sold, the quantities are what it leaves, and
    where anything is sold the deficit is lower than it was. -/
structure Kept (m : MarginPosition) (step : MarginHolding → Decimal)
    (candidates : List MarginHolding) (s : DescentState) : Prop where
  sold : ∀ assetId quantity, s.sold.get? assetId = some quantity →
    ∃ h ∈ candidates, h.assetId = assetId ∧ 0 < quantity ∧ h.Sells (step h) quantity
  held : ∀ h ∈ m.holdings, heldAt s.quantities h = h.quantity - h.sign * s.soldOf h
  lower : m.deficitAt s.quantities ≤ m.deficitAt Dict.empty
  lowered : s.sold.entries ≠ [] → m.deficitAt s.quantities < m.deficitAt Dict.empty

theorem kept_start : m.Kept step candidates {} := by
  refine ⟨?_, ?_, le_rfl, ?_⟩
  · rintro assetId quantity ⟨⟩
  · intro h _
    show h.quantity = h.quantity - h.sign * 0
    ring
  · intro hne
    exact absurd rfl hne

theorem holding_eq {h' : MarginHolding} (hh : h ∈ m.holdings) (hh' : h' ∈ m.holdings)
    (hid : h'.assetId = h.assetId) : h' = h :=
  List.inj_on_of_nodup_map m.nodup hh' hh hid

section
variable (hmem : ∀ h ∈ candidates, h ∈ m.holdings) (hkept : m.Kept step candidates s)
  (hh : h ∈ candidates)
include hmem hkept hh

theorem Kept.sells : h.Sells (step h) (s.soldOf h) := by
  unfold DescentState.soldOf
  cases hsold : s.sold.get? h.assetId with
  | none => exact MarginHolding.sells_zero
  | some quantity =>
    obtain ⟨h', hh', hid, -, hsells⟩ := hkept.sold _ _ hsold
    obtain rfl := holding_eq (hmem h hh) (hmem h' hh') hid
    exact hsells

theorem Kept.held_set {sold : Decimal} (hless : h.less sold = h.quantity - h.sign * sold)
    {t : DescentState} (hquantities : t.quantities = s.quantities.set h.assetId (h.less sold))
    (hsold : t.soldOf h = sold) (hothers : ∀ h' : MarginHolding, h'.assetId ≠ h.assetId →
      t.soldOf h' = s.soldOf h') :
    ∀ h' ∈ m.holdings, heldAt t.quantities h' = h'.quantity - h'.sign * t.soldOf h' := by
  intro h' hh'
  unfold heldAt
  rw [hquantities, Dict.get?_set]
  split_ifs with hid
  · obtain rfl := holding_eq (hmem h hh) hh' hid
    rw [hsold]
    exact hless
  · rw [hothers h' hid]
    exact hkept.held h' hh'

variable (hcarried : Carried h (step h)) (hpos : 0 < step h)
include hcarried hpos

/-- **No step more sells no more**: the deficit is as it was. -/
theorem Kept.deficitAfter_zero :
    h.soldAfter (step h) (s.soldOf h) 0 = s.soldOf h ∧
      m.deficitAfter s h (step h) 0 = m.deficitAt s.quantities := by
  have hsells := hkept.sells hmem hh
  have hnone : h.soldAfter (step h) (s.soldOf h) 0 = s.soldOf h := by
    obtain ⟨place, hholding, hstep, hsmall⟩ := hcarried
    rw [MarginHolding.soldAfter_eq hholding hstep hsmall hpos hsells, Nat.cast_zero, zero_mul,
      min_eq_left (sub_nonneg.mpr hsells.le), add_zero]
  refine ⟨hnone, ?_⟩
  unfold deficitAfter deficitAt
  rw [hnone, m.figures_congr]
  intro h' hh'
  unfold heldAt
  rw [Dict.get?_set]
  split_ifs with hid
  · obtain rfl := holding_eq (hmem h hh) hh' hid
    have hheld := hkept.held h' hh'
    rw [Option.getD_some, MarginHolding.less_of_carried hcarried hsells, ← hheld]
    rfl
  · rfl

/-- **The step a turn takes**, where some reduction helps: one step at least, and the deficit
    is lower. -/
theorem Kept.stepTaken_lowers
    (hhelps : m.deficitAfter s h (step h) (m.bestOf step s h) < m.deficitAt s.quantities)
    (hdeficit : 0 < m.deficitAt s.quantities) :
    0 < m.stepTaken s h (step h) ∧
      m.deficitAfter s h (step h) (m.stepTaken s h (step h)) < m.deficitAt s.quantities := by
  obtain ⟨-, hzero⟩ := hkept.deficitAfter_zero hmem hh hcarried hpos
  unfold stepTaken
  change m.deficitAfter s h (step h) (bestStep (m.deficitAfter s h (step h))
    (h.stepsLeft (step h) (s.soldOf h))) < _ at hhelps
  set best := bestStep (m.deficitAfter s h (step h)) (h.stepsLeft (step h) (s.soldOf h))
  have hbest : 0 < best := by
    rw [Nat.pos_iff_ne_zero]
    intro hbest
    rw [hbest, hzero] at hhelps
    exact lt_irrefl _ hhelps
  dsimp only
  split_ifs with hrestores
  · obtain ⟨hpositive, -, hpasses⟩ :=
      @leastFrom_spec (fun n => m.deficitAfter s h (step h) n ≤ 0) 0 best hbest
        (decide_eq_true hrestores)
    exact ⟨hpositive, (of_decide_eq_true hpasses).trans_lt hdeficit⟩
  · exact ⟨hbest, hhelps⟩

/-- **A turn** keeps what is sold within the holdings, and never raises the deficit. -/
theorem descend_kept : m.Kept step candidates (m.descend step s h) := by
  have hsells := hkept.sells hmem hh
  obtain ⟨hnone, hzero⟩ := hkept.deficitAfter_zero hmem hh hcarried hpos
  rcases m.descend_cases step s h with ⟨-, heq⟩ | ⟨hdeficit, hleft, ⟨-, heq⟩ | ⟨hhelps, heq⟩⟩
  · rw [heq]
    exact hkept
  · -- left alone: its quantity is written, and is what it was
    have hheld := hkept.held_set hmem hh (MarginHolding.less_of_carried hcarried hsells)
      (t := { s with quantities := s.quantities.set h.assetId (h.less (s.soldOf h)) }) rfl rfl
      fun _ _ => rfl
    have hsame : m.deficitAt (s.quantities.set h.assetId (h.less (s.soldOf h))) =
        m.deficitAt s.quantities := by
      rw [← hzero, deficitAfter, hnone]
    rw [heq, hnone]
    exact ⟨hkept.sold, hheld, hsame.trans_le hkept.lower,
      fun hne => hsame.trans_lt (hkept.lowered hne)⟩
  · obtain ⟨htaken, hlower⟩ := hkept.stepTaken_lowers hmem hh hcarried hpos hhelps hdeficit
    have hafter := hsells.after hcarried hpos (m.stepTaken s h (step h))
    have hpositive : 0 < h.soldAfter (step h) (s.soldOf h) (m.stepTaken s h (step h)) := by
      obtain ⟨place, hholding, hstep, hsmall⟩ := hcarried
      rw [MarginHolding.left_eq hholding hstep hsmall hsells] at hleft
      rw [MarginHolding.soldAfter_eq hholding hstep hsmall hpos hsells]
      have hsteps : (0 : ℚ) < m.stepTaken s h (step h) * step h :=
        mul_pos (by exact_mod_cast htaken) hpos
      exact add_pos_of_nonneg_of_pos hsells.nonneg (lt_min hsteps hleft)
    rw [heq]
    set sold := h.soldAfter (step h) (s.soldOf h) (m.stepTaken s h (step h)) with hsold
    have hheld := hkept.held_set hmem hh (MarginHolding.less_of_carried hcarried hafter)
      (t := { quantities := s.quantities.set h.assetId (h.less sold)
              sold := s.sold.set h.assetId sold
              improved := true }) rfl
      (by simp [DescentState.soldOf]) fun h' hne => by
        simp [DescentState.soldOf, Dict.get?_set_of_ne _ _ hne]
    have hdown : m.deficitAt (s.quantities.set h.assetId (h.less sold)) <
        m.deficitAt Dict.empty := lt_of_lt_of_le hlower hkept.lower
    refine ⟨?_, hheld, hdown.le, fun _ => hdown⟩
    intro assetId quantity hquantity
    rw [Dict.get?_set] at hquantity
    split_ifs at hquantity with hid
    · obtain rfl := Option.some.inj hquantity
      exact ⟨h, hh, hid.symm, hpositive, hafter⟩
    · exact hkept.sold assetId quantity hquantity

/-- The deficit is convex in a position's size, over the sizes its turn can leave it. -/
def ConvexIn (m : MarginPosition) (s : DescentState) (h : MarginHolding) (step : Decimal) :
    Prop :=
  ∀ i j k, i ≤ j → j ≤ k → k ≤ h.stepsLeft step (s.soldOf h) →
    m.deficitAfter s h step j *
        (h.soldAfter step (s.soldOf h) k - h.soldAfter step (s.soldOf h) i) ≤
      m.deficitAfter s h step i *
          (h.soldAfter step (s.soldOf h) k - h.soldAfter step (s.soldOf h) j) +
        m.deficitAfter s h step k *
          (h.soldAfter step (s.soldOf h) j - h.soldAfter step (s.soldOf h) i)

theorem restores_between (hconvex : m.ConvexIn s h (step h)) {i j k : ℕ} (hij : i ≤ j)
    (hjk : j ≤ k) (hk : k ≤ h.stepsLeft (step h) (s.soldOf h))
    (hi : m.deficitAfter s h (step h) i ≤ 0) (hrestored : m.deficitAfter s h (step h) k ≤ 0) :
    m.deficitAfter s h (step h) j ≤ 0 := by
  have hsells := hkept.sells hmem hh
  have hmono : ∀ {a b : ℕ}, a ≤ b →
      h.soldAfter (step h) (s.soldOf h) a ≤ h.soldAfter (step h) (s.soldOf h) b := by
    intro a b hab
    obtain ⟨place, hholding, hstep, hsmall⟩ := hcarried
    rw [MarginHolding.soldAfter_eq hholding hstep hsmall hpos hsells,
      MarginHolding.soldAfter_eq hholding hstep hsmall hpos hsells]
    have hsteps : (a : ℚ) * step h ≤ b * step h :=
      mul_le_mul_of_nonneg_right (by exact_mod_cast hab) hpos.le
    linarith [min_le_min_right (|h.quantity| - s.soldOf h) hsteps]
  have hsizes := hconvex i j k hij hjk hk
  rcases (hmono (hij.trans hjk)).lt_or_eq with hlt | heq
  · have hwide : 0 < h.soldAfter (step h) (s.soldOf h) k - h.soldAfter (step h) (s.soldOf h) i :=
      sub_pos.mpr hlt
    have hbound : m.deficitAfter s h (step h) j *
        (h.soldAfter (step h) (s.soldOf h) k - h.soldAfter (step h) (s.soldOf h) i) ≤ 0 := by
      refine hsizes.trans (add_nonpos ?_ ?_)
      · exact mul_nonpos_of_nonpos_of_nonneg hi (sub_nonneg.mpr (hmono hjk))
      · exact mul_nonpos_of_nonpos_of_nonneg hrestored (sub_nonneg.mpr (hmono hij))
    exact nonpos_of_mul_nonpos_left hbound hwide
  · -- the ends leave one size, and so does what is between them
    have hsame : h.soldAfter (step h) (s.soldOf h) j = h.soldAfter (step h) (s.soldOf h) i :=
      le_antisymm ((hmono hjk).trans_eq heq.symm) (hmono hij)
    rw [deficitAfter, hsame]
    exact hi

/-- **A turn that restores** sells the least number of steps that restores, where the deficit
    is convex in the position's size. -/
theorem descend_least (hconvex : m.ConvexIn s h (step h)) (hdeficit : 0 < m.deficitAt s.quantities)
    (hrestored : m.deficitAt (m.descend step s h).quantities ≤ 0) :
    ∀ n < m.stepTaken s h (step h), 0 < m.deficitAfter s h (step h) n := by
  obtain ⟨-, hzero⟩ := hkept.deficitAfter_zero hmem hh hcarried hpos
  rcases m.descend_cases step s h with ⟨-, heq⟩ | ⟨-, -, ⟨-, heq⟩ | ⟨hhelps, heq⟩⟩
  · rw [heq] at hrestored
    exact absurd hrestored hdeficit.not_ge
  · rw [heq] at hrestored
    exact absurd (hzero.symm.trans_le hrestored) hdeficit.not_ge
  · rw [heq] at hrestored
    change m.deficitAfter s h (step h) (m.stepTaken s h (step h)) ≤ 0 at hrestored
    have hbest : m.deficitAfter s h (step h) (m.bestOf step s h) ≤ 0 := by
      by_contra hshort
      have htaken : m.stepTaken s h (step h) = m.bestOf step s h := if_neg hshort
      rw [htaken] at hrestored
      exact hshort hrestored
    have htaken : m.stepTaken s h (step h) =
        leastFrom (fun n => m.deficitAfter s h (step h) n ≤ 0) 0 (m.bestOf step s h) :=
      if_pos hbest
    have hsome : 0 < m.bestOf step s h := by
      rw [Nat.pos_iff_ne_zero]
      intro hnone
      rw [hnone, hzero] at hbest
      exact absurd hbest hdeficit.not_ge
    rw [htaken]
    intro n hn
    have hleast := @leastFrom_least (fun n => m.deficitAfter s h (step h) n ≤ 0) 0
      (m.bestOf step s h) hsome (decide_eq_false (hzero ▸ hdeficit.not_ge)) (by
        intro i j hij hj hi
        refine decide_eq_true (restores_between hmem hkept hh hcarried hpos hconvex hij hj ?_
          (of_decide_eq_true hi) hbest)
        exact bestStep_le _ _) n hn
    exact not_le.mp (of_decide_eq_false hleast)

end

section
variable (hmem : ∀ h ∈ candidates, h ∈ m.holdings)
  (hcarried : ∀ h ∈ candidates, Carried h (step h)) (hpos : ∀ h, 0 < step h)

theorem foldl_descends {l : List MarginHolding} (hl : ∀ h ∈ l, h ∈ candidates)
    (hs : m.Descends step candidates s) :
    m.Descends step candidates (l.foldl (m.descend step) s) := by
  induction l generalizing s with
  | nil => exact hs
  | cons h l ih =>
    exact ih (fun h' hh' => hl h' (by simp [hh'])) (hs.turn (hl h (by simp)))

theorem passes_descends (count : ℕ) (hs : m.Descends step candidates s) :
    m.Descends step candidates (m.passes step candidates count s) := by
  induction count generalizing s with
  | zero => exact hs
  | succ count ih =>
    have hpass : m.Descends step candidates (m.onePass step candidates s) :=
      foldl_descends (fun _ hh => hh) hs.again
    unfold passes
    dsimp only
    split_ifs
    · exact hpass
    · exact ih hpass

include hmem hcarried hpos

theorem descends_kept (hs : m.Descends step candidates s) : m.Kept step candidates s := by
  induction hs with
  | start => exact kept_start
  | turn _ hh ih => exact descend_kept hmem ih hh (hcarried _ hh) (hpos _)
  | again _ ih => exact ⟨ih.sold, ih.held, ih.lower, ih.lowered⟩

def RestoredBy (m : MarginPosition) (step : MarginHolding → Decimal)
    (candidates : List MarginHolding) (t : DescentState) : Prop :=
  ∃ s h, m.Descends step candidates s ∧ h ∈ candidates ∧ 0 < m.deficitAt s.quantities ∧
    t.quantities = (m.descend step s h).quantities ∧ t.sold = (m.descend step s h).sold

omit hmem hcarried hpos in
theorem descends_restored (hshort : 0 < m.deficitAt Dict.empty)
    (hs : m.Descends step candidates s) :
    0 < m.deficitAt s.quantities ∨ m.RestoredBy step candidates s := by
  induction hs with
  | start => exact Or.inl hshort
  | @turn s h hs hh ih =>
    by_cases hdeficit : 0 < m.deficitAt s.quantities
    · exact Or.inr ⟨s, h, hs, hh, hdeficit, rfl, rfl⟩
    · have hdone : m.descend step s h = s := if_pos (Or.inl (not_lt.mp hdeficit))
      rw [hdone]
      exact ih
  | again _ ih => exact ih

end

/-! ## What is sold in the end -/

def afterSales (reductions : List (MarginHolding × Decimal)) : Dict String Decimal :=
  Dict.empty.setAll (reductions.map fun r => (r.1.assetId, r.1.less r.2))

theorem reductions_entries (hkept : m.Kept step candidates s) :
    (reductions candidates s).map (fun r => (r.1.assetId, r.2)) = s.sold.entries := by
  have hentries : ∀ l : List (String × Decimal), (∀ e ∈ l, s.sold.get? e.1 = some e.2) →
      (l.filterMap fun (assetId, quantity) =>
        if 0 < quantity then (candidates.find? (·.assetId = assetId)).map (·, quantity)
        else none).map (fun r => (r.1.assetId, r.2)) = l := by
    intro l
    induction l with
    | nil => intro _; rfl
    | cons e l ih =>
      obtain ⟨assetId, quantity⟩ := e
      intro hl
      obtain ⟨h, hh, hid, hpositive, -⟩ := hkept.sold _ _ (hl _ List.mem_cons_self)
      obtain ⟨h', hh'⟩ := Option.isSome_iff_exists.mp
        (List.find?_isSome (p := (·.assetId = assetId)).mpr ⟨h, hh, decide_eq_true hid⟩)
      have hid' : h'.assetId = assetId := by simpa using List.find?_some hh'
      rw [List.filterMap_cons]
      simp only [if_pos hpositive, hh', Option.map_some, List.map_cons, hid']
      rw [ih fun e' he' => hl e' (List.mem_cons_of_mem _ he')]
  exact hentries _ fun e he => (Dict.get?_eq_some _).mpr he

section
variable (hmem : ∀ h ∈ candidates, h ∈ m.holdings)
include hmem

theorem mem_reductions (hkept : m.Kept step candidates s) {r : MarginHolding × Decimal}
    (hr : r ∈ reductions candidates s) :
    r.1 ∈ candidates ∧ 0 < r.2 ∧ r.1.Sells (step r.1) r.2 ∧ s.soldOf r.1 = r.2 := by
  have hentry : (r.1.assetId, r.2) ∈ s.sold.entries := by
    rw [← reductions_entries hkept]
    exact List.mem_map_of_mem hr
  have hsold := (Dict.get?_eq_some _).mpr hentry
  obtain ⟨h, hh, hid, hpositive, hsells⟩ := hkept.sold _ _ hsold
  obtain ⟨⟨assetId, quantity⟩, -, hfound⟩ := List.mem_filterMap.mp hr
  dsimp only at hfound
  split_ifs at hfound
  obtain ⟨h', hh', rfl⟩ := Option.map_eq_some_iff.mp hfound
  have hmem' := List.mem_of_find?_eq_some hh'
  obtain rfl := holding_eq (hmem h hh) (hmem h' hmem') hid.symm
  refine ⟨hh, hpositive, hsells, ?_⟩
  rw [DescentState.soldOf, hsold, Option.getD_some]

variable (hcarried : ∀ h ∈ candidates, Carried h (step h))
include hcarried

/-- **The deficit the sales leave** is the one the descent ended with. -/
theorem deficitAt_afterSales (hkept : m.Kept step candidates s) :
    m.deficitAt (afterSales (reductions candidates s)) = m.deficitAt s.quantities := by
  unfold deficitAt
  rw [m.figures_congr]
  intro h hh
  have hids : ((reductions candidates s).map fun r => (r.1.assetId, r.1.less r.2)).map Prod.fst =
      s.sold.entries.map Prod.fst := by
    rw [← reductions_entries hkept, List.map_map, List.map_map]
    rfl
  rw [hkept.held h hh]
  by_cases hsold : h.assetId ∈ s.sold.entries.map Prod.fst
  · obtain ⟨e, he, hid⟩ := List.mem_map.mp (hids ▸ hsold)
    obtain ⟨r, hr, rfl⟩ := List.mem_map.mp he
    obtain ⟨hcandidate, -, hsells, hsoldOf⟩ := mem_reductions hmem hkept hr
    obtain rfl := holding_eq (hmem r.1 hcandidate) hh hid.symm
    have hread := Dict.get?_setAll_of_mem (d := Dict.empty) (hids ▸ s.sold.nodup) he
    rw [heldAt, afterSales, hread, Option.getD_some, hsoldOf]
    exact MarginHolding.less_of_carried (hcarried _ hcandidate) hsells
  · have hread := Dict.get?_setAll_of_notMem (d := Dict.empty)
      (l := (reductions candidates s).map fun r => (r.1.assetId, r.1.less r.2))
      (k := h.assetId) (hids ▸ hsold)
    have hnone : s.sold.get? h.assetId = none := (Dict.get?_eq_none _).mpr hsold
    rw [heldAt, afterSales, hread, DescentState.soldOf, hnone]
    simp

end

end MarginPosition

theorem saleStep_pos (c : SimulationConfig) (h : MarginHolding) : 0 < c.saleStep h := by
  unfold SimulationConfig.saleStep SimulationConfig.liquidationStep SimulationConfig.tradingStep
  split
  · rename_i lot _
    exact lot.lotSize_pos
  · split_ifs
    · exact zero_lt_one
    · norm_num [fractionalStep]

/-- **A liquidation under a margin model**, whatever the model requires and whatever can be
    sold, where what is held is carried: it sells of distinct holdings that can be sold, some of
    each and no more than it; sells only what leaves a lower deficit; and what restores the
    initial requirement was the least number of steps of the last holding that restores it,
    given what was sold before, where the deficit is convex in its size. -/
theorem model_liquidation (c : SimulationConfig) (s : PipelineState) (m : MarginPosition)
    (hcarried : ∀ h ∈ m.holdings, Carried h (c.saleStep h)) :
    (∀ r ∈ s.modelReductions c m, r.1 ∈ m.holdings ∧ s.sellable r.1 = true ∧ 0 < r.2 ∧
        r.2 ≤ |r.1.quantity|) ∧
      ((s.modelReductions c m).map (·.1.assetId)).Nodup ∧
      (s.modelReductions c m ≠ [] →
        m.deficitAt (MarginPosition.afterSales (s.modelReductions c m)) <
          m.deficitAt Dict.empty) ∧
      (0 < m.deficitAt Dict.empty →
        m.deficitAt (MarginPosition.afterSales (s.modelReductions c m)) ≤ 0 →
        ∃ d h, m.Descends c.saleStep (m.holdings.filter s.sellable) d ∧ h ∈ m.holdings ∧
          s.sellable h = true ∧ 0 < m.deficitAt d.quantities ∧
          s.modelReductions c m = MarginPosition.reductions (m.holdings.filter s.sellable)
            (m.descend c.saleStep d h) ∧
          (m.ConvexIn d h (c.saleStep h) → ∀ n < m.stepTaken d h (c.saleStep h),
            0 < m.deficitAfter d h (c.saleStep h) n)) := by
  set candidates := m.holdings.filter s.sellable
  have hmem : ∀ h ∈ candidates, h ∈ m.holdings := fun h hh => (List.mem_filter.mp hh).1
  have hplaced : ∀ h ∈ candidates, Carried h (c.saleStep h) := fun h hh => hcarried h (hmem h hh)
  have hpos := saleStep_pos c
  set t := m.passes c.saleStep candidates liquidationPasses {}
  have hdescends : m.Descends c.saleStep candidates t := MarginPosition.passes_descends _ .start
  have hkept : m.Kept c.saleStep candidates t :=
    MarginPosition.descends_kept hmem hplaced hpos hdescends
  have hafter := MarginPosition.deficitAt_afterSales hmem hplaced hkept
  have hreductions : s.modelReductions c m = MarginPosition.reductions candidates t := rfl
  rw [hreductions, hafter]
  refine ⟨?_, ?_, ?_, ?_⟩
  · intro r hr
    obtain ⟨hcandidate, hpositive, hsells, -⟩ := MarginPosition.mem_reductions hmem hkept hr
    obtain ⟨hholding, hsellable⟩ := List.mem_filter.mp hcandidate
    exact ⟨hholding, hsellable, hpositive, hsells.le⟩
  · have hids : (MarginPosition.reductions candidates t).map (·.1.assetId) =
        t.sold.entries.map Prod.fst := by
      rw [← MarginPosition.reductions_entries hkept, List.map_map]
      rfl
    rw [hids]
    exact t.sold.nodup
  · intro hsome
    refine hkept.lowered ?_
    rw [← MarginPosition.reductions_entries hkept]
    simpa using hsome
  · intro hshort hrestored
    rcases MarginPosition.descends_restored hshort hdescends with hleft | hlast
    · exact absurd hrestored hleft.not_ge
    · obtain ⟨d, h, hd, hh, hdeficit, hquantities, hsold⟩ := hlast
      obtain ⟨hholding, hsellable⟩ := List.mem_filter.mp hh
      have hkeptBefore := MarginPosition.descends_kept hmem hplaced hpos hd
      refine ⟨d, h, hd, hholding, hsellable, hdeficit, ?_, ?_⟩
      · unfold MarginPosition.reductions
        rw [hsold]
      · intro hconvex
        exact MarginPosition.descend_least hmem hkeptBefore hh (hplaced h hh) (hpos h) hconvex
          hdeficit (hquantities ▸ hrestored)

/-! ## Two liquidations -/

def worthOne (assetId : String) (quantity : Decimal) : MarginHolding where
  assetId := assetId
  quantity := quantity
  initial := quantity
  maintenance := quantity
  unitInitial := 1
  unitCollateral := 0
  unitValue := 1
  unitMaintenance := 1

/-- A run in which a strategy holds some of A and of B, both priced. -/
def holdingRun : PipelineState where
  orders := Register.empty
  allocation := { budget := { globalCapital := 1000, maximumExposure := 1000 },
                  strategyPositions := some (Dict.empty.set "S"
                    ((Dict.empty.set "A" 1).set "B" 1)) }
  portfolio := thousandHeld
  marketPrices := (Dict.empty.set "A" 1).set "B" 1

def tenAUnit : MarginModel := fun exposures =>
  ⟨10 * (exposures.map (·.value)).sum, 10 * (exposures.map (·.value)).sum⟩

/-- Four units of A, for which ten a unit is required and fifteen is there. -/
def fourAtTen : MarginPosition where
  equity := 15
  initial := 40
  maintenance := 40
  holdings := [worthOne "A" 4]
  model := some tenAUnit
  nodup := by decide

/-- Three of the four are sold, no more than are held. -/
theorem model_liquidation_three :
    holdingRun.modelReductions plainSimulation fourAtTen = [(worthOne "A" 4, 3)] ∧
      ∀ r ∈ holdingRun.modelReductions plainSimulation fourAtTen, r.2 ≤ |r.1.quantity| := by
  have hcarried : ∀ h ∈ fourAtTen.holdings, Carried h (plainSimulation.saleStep h) := by
    intro h hh
    obtain rfl := List.mem_singleton.mp hh
    refine ⟨0, ?_, ?_, ?_⟩
    · exact ⟨4, by norm_num [worthOne, placeUnit]⟩
    · exact ⟨1, by decide +kernel⟩
    · norm_num [worthOne, placeUnit, accountingPrecision]
  refine ⟨by decide +kernel, ?_⟩
  intro r hr
  exact ((model_liquidation plainSimulation holdingRun fourAtTen hcarried).1 r hr).2.2.2

/-- Lots of A that halve the last digit of a large holding. -/
def halvingLots : InstrumentEconomics :=
  { cashEquity with
    lot := some {
      lotSize := 7 * 10 ^ 32 + 3 / 2
      minimumQuantity := 7 * 10 ^ 32 + 3 / 2
      lotSize_pos := by norm_num
      minimumQuantity_pos := by norm_num
      minimum_whole := ⟨1, by norm_num⟩ } }

def halvingRun : SimulationConfig :=
  { plainSimulation with
    pipeline := { dollarPipeline with
      economics := fun assetId => if assetId = "A" then some halvingLots else none } }

/-- A requirement that first wants one lot of A sold, then B, then the rest of A. -/
def lotThenRest : MarginModel := fun exposures =>
  let held := ((exposures.filter (·.assetId = "A")).map (·.value)).sum
  let required : Decimal := if exposures.any (·.assetId = "B") then
      if held = 13 * 10 ^ 32 then 3 * 10 ^ 33 else 4 * 10 ^ 33
    else held
  ⟨required, required⟩

/-- A holding of thirty-four digits, and one unit beside it. -/
def largeHolding : MarginPosition where
  equity := 0
  initial := 4 * 10 ^ 33
  maintenance := 4 * 10 ^ 33
  holdings := [worthOne "A" (2 * 10 ^ 33 + 1), worthOne "B" 1]
  model := some lotThenRest
  nodup := by decide

/-- **A holding is oversold** where its lots have digits that what is left of it has no room
    for: the lot sold first is rounded off it, and with the rest one unit too many is sold. -/
theorem large_holding_oversold :
    largeHolding.InBreach ∧
      ∃ r ∈ holdingRun.modelReductions halvingRun largeHolding, |r.1.quantity| < r.2 := by
  refine ⟨by decide +kernel, ?_⟩
  have hany : (holdingRun.modelReductions halvingRun largeHolding).any
      (fun r => decide (|r.1.quantity| < r.2)) = true := by decide +kernel
  obtain ⟨r, hr, hover⟩ := List.any_eq_true.mp hany
  exact ⟨r, hr, of_decide_eq_true hover⟩

end AlphaLab
