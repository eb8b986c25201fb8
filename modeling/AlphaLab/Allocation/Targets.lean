/-
  Target intents, over a whole batch and the fills of its orders.

  * `targets_approached`: between where it was and its target, which then asks for
    nothing more.
-/
import AlphaLab.Allocation.Batches
import AlphaLab.Allocation.Pieces

namespace AlphaLab

open Rounding Fallible

/-! ## What can be traded -/

def tradingUnit (wholeUnits : Bool) : Decimal := if wholeUnits then 1 else quantum quantityPlaces

def LotWhole (wholeUnits : Bool) (lot : Option LotSpecification) : Prop :=
  ∀ l, lot = some l → OnGrid (tradingUnit wholeUnits) l.lotSize

theorem tradingUnit_pos (wholeUnits : Bool) : 0 < tradingUnit wholeUnits := by
  unfold tradingUnit
  split_ifs
  · exact one_pos
  · exact quantum_pos _

variable {x : Decimal}

theorem roundDown_eq_floorTo (h : 0 ≤ x) : roundDown x = floorTo 1 x := by
  rw [roundDown, if_pos h, floorTo, div_one, mul_one]

theorem roundDown_neg (x : Decimal) : roundDown (-x) = -roundDown x := by
  unfold roundDown
  rcases lt_trichotomy x 0 with hx | rfl | hx
  · rw [if_pos (by linarith), if_neg (by linarith), Int.floor_neg]
    push_cast
    rfl
  · simp
  · rw [if_neg (by linarith), if_pos hx.le, Int.ceil_neg]
    push_cast
    rfl

theorem truncateTo_eq_floorTo {n : ℕ} (h : 0 ≤ x) : truncateTo n x = floorTo (quantum n) x := by
  rw [truncateTo, roundDown_eq_floorTo (div_nonneg h (quantum_pos n).le), floorTo, floorTo, div_one,
    mul_one]

theorem truncateTo_neg (n : ℕ) (x : Decimal) : truncateTo n (-x) = -truncateTo n x := by
  rw [truncateTo, neg_div, roundDown_neg, neg_mul, truncateTo]

theorem roundDownToLot_of_nonneg (h : 0 ≤ x) (lot : LotSpecification) :
    roundDownToLot x lot =
      if floorTo lot.lotSize x < lot.minimumQuantity then 0 else floorTo lot.lotSize x := by
  have hdiv : 0 ≤ x / lot.lotSize := div_nonneg h lot.lotSize_pos.le
  have hfloor : roundDown (|x| / lot.lotSize) * lot.lotSize = floorTo lot.lotSize x := by
    rw [abs_of_nonneg h, roundDown_eq_floorTo hdiv, floorTo, floorTo, div_one, mul_one]
  unfold roundDownToLot
  dsimp only
  rw [hfloor, if_neg (not_lt.mpr h)]

theorem roundDownToLot_neg (x : Decimal) (lot : LotSpecification) :
    roundDownToLot (-x) lot = -roundDownToLot x lot := by
  unfold roundDownToLot
  dsimp only
  rw [abs_neg]
  rcases lt_trichotomy x 0 with hx | rfl | hx
  · split_ifs <;> linarith
  · simp [roundDown]
  · split_ifs <;> linarith

theorem tradable_neg (wholeUnits : Bool) (lot : Option LotSpecification) (x : Decimal) :
    tradable wholeUnits lot (-x) = -tradable wholeUnits lot x := by
  unfold tradable
  dsimp only
  rw [truncateTo_neg]
  cases lot with
  | none =>
    cases wholeUnits with
    | false => rfl
    | true => exact roundDown_neg _
  | some lot =>
    cases wholeUnits with
    | false => exact roundDownToLot_neg _ _
    | true =>
      simp only [if_true, Option.elim_some]
      rw [roundDown_neg, roundDownToLot_neg]

theorem tradable_of_nonneg (h : 0 ≤ x) (wholeUnits : Bool) (lot : Option LotSpecification) :
    tradable wholeUnits lot x =
      lot.elim (floorTo (tradingUnit wholeUnits) x)
        (roundDownToLot (floorTo (tradingUnit wholeUnits) x)) := by
  have htruncated : 0 ≤ truncateTo quantityPlaces x := by
    rw [truncateTo_eq_floorTo h]
    exact floorTo_nonneg (quantum_pos _) h
  have hunit : (if wholeUnits then roundDown (truncateTo quantityPlaces x)
      else truncateTo quantityPlaces x) = floorTo (tradingUnit wholeUnits) x := by
    unfold tradingUnit
    cases wholeUnits with
    | false => exact truncateTo_eq_floorTo h
    | true =>
      simp only [if_true]
      have hgrid : OnGrid (quantum quantityPlaces) 1 := ⟨10 ^ 6, by norm_num [quantum, quantityPlaces]⟩
      rw [roundDown_eq_floorTo htruncated, truncateTo_eq_floorTo h,
        floorTo_floorTo (quantum_pos _) one_pos hgrid]
  unfold tradable
  dsimp only
  rw [hunit]

/-- **A difference is brought onto what can be traded towards zero.** -/
theorem tradable_le (h : 0 ≤ x) (wholeUnits : Bool) (lot : Option LotSpecification) :
    0 ≤ tradable wholeUnits lot x ∧ tradable wholeUnits lot x ≤ x := by
  have hunit := floorTo_nonneg (tradingUnit_pos wholeUnits) h
  have hle := floorTo_le (tradingUnit_pos wholeUnits) x
  rw [tradable_of_nonneg h]
  cases lot with
  | none => exact ⟨hunit, hle⟩
  | some lot =>
    rw [Option.elim_some, roundDownToLot_of_nonneg hunit]
    split_ifs
    · exact ⟨le_rfl, h⟩
    · exact ⟨floorTo_nonneg lot.lotSize_pos hunit, (floorTo_le lot.lotSize_pos _).trans hle⟩

theorem tradable_between (x : Decimal) (wholeUnits : Bool) (lot : Option LotSpecification) :
    tradable wholeUnits lot x ∈ Set.uIcc 0 x := by
  rw [Set.mem_uIcc]
  rcases le_total 0 x with h | h
  · exact Or.inl (tradable_le h wholeUnits lot)
  · obtain ⟨hnonneg, hle⟩ := tradable_le (neg_nonneg.mpr h) wholeUnits lot
    rw [tradable_neg] at hnonneg hle
    exact Or.inr ⟨by linarith, by linarith⟩

theorem tradable_rest_of_nonneg (h : 0 ≤ x) {wholeUnits : Bool} {lot : Option LotSpecification}
    (hlot : LotWhole wholeUnits lot) :
    tradable wholeUnits lot (x - tradable wholeUnits lot x) = 0 := by
  have hpos := tradingUnit_pos wholeUnits
  have hrest : 0 ≤ x - tradable wholeUnits lot x :=
    sub_nonneg.mpr (tradable_le h wholeUnits lot).2
  rw [tradable_of_nonneg hrest]
  rw [tradable_of_nonneg h] at hrest ⊢
  cases lot with
  | none =>
    rw [Option.elim_none] at hrest
    refine floorTo_eq_zero hrest ?_
    rw [Option.elim_none]
    linarith [lt_floorTo_add hpos x]
  | some lot =>
    have hgrid := hlot lot rfl
    have hcoarse : ∀ y, floorTo lot.lotSize (floorTo (tradingUnit wholeUnits) y) =
        floorTo lot.lotSize y := floorTo_floorTo hpos lot.lotSize_pos hgrid
    simp only [Option.elim_some] at hrest ⊢
    rw [roundDownToLot_of_nonneg (floorTo_nonneg hpos hrest), hcoarse,
      roundDownToLot_of_nonneg (floorTo_nonneg hpos h), hcoarse]
    rw [roundDownToLot_of_nonneg (floorTo_nonneg hpos h), hcoarse] at hrest
    by_cases hmin : floorTo lot.lotSize x < lot.minimumQuantity
    · rw [if_pos hmin, sub_zero, if_pos hmin]
    · rw [if_neg hmin] at hrest ⊢
      have hzero : floorTo lot.lotSize (x - floorTo lot.lotSize x) = 0 :=
        floorTo_eq_zero hrest (by linarith [lt_floorTo_add lot.lotSize_pos x])
      rw [hzero, if_pos lot.minimumQuantity_pos]

/-- **What is left of a difference once it is traded cannot be traded.** -/
theorem tradable_rest (x : Decimal) {wholeUnits : Bool} {lot : Option LotSpecification}
    (hlot : LotWhole wholeUnits lot) :
    tradable wholeUnits lot (x - tradable wholeUnits lot x) = 0 := by
  rcases le_total 0 x with h | h
  · exact tradable_rest_of_nonneg h hlot
  · have hrest := tradable_rest_of_nonneg (neg_nonneg.mpr h) hlot
    rw [tradable_neg, ← neg_sub', tradable_neg, neg_eq_zero] at hrest
    exact hrest

/-! ## The fills of a batch -/

structure OrderFill where
  order : OrderRequest
  quantity : Decimal
  notional : Option Decimal

def AllocationState.fillAll (s : AllocationState) (fills : List OrderFill) :
    Except LedgerRefusal AllocationState :=
  fills.foldlM (fun s f => s.recordFill f.order.orderId f.order.assetId
    (f.order.side.signed f.quantity) f.notional) s

def piecesOf (fills : List OrderFill) (o : OrderRequest) : List (Decimal × Option Decimal) :=
  (fills.filter (·.order = o)).map fun f => (f.quantity, f.notional)

structure FilledInFull (orders : List OrderRequest) (fills : List OrderFill) : Prop where
  ofBatch : ∀ f ∈ fills, f.order ∈ orders
  pieces_pos : ∀ f ∈ fills, 0 < f.quantity
  full : ∀ o ∈ orders, ((piecesOf fills o).map Prod.fst).sum = o.quantity

def fillShare (s : AllocationState) (strategyId assetId : String) (f : OrderFill) : Decimal :=
  if assetId = f.order.assetId then
    (splitByContribution (f.order.side.signed f.quantity) (s.contributionsFor f.order.orderId)
      positionPlaces).elim 0 (partOf · strategyId)
  else 0

variable {quantity : Decimal}

section
variable {s t : AllocationState} {fills : List OrderFill}

theorem signed_ne_zero {side : Side} (h : 0 < quantity) : side.signed quantity ≠ 0 := by
  cases side with
  | buy => exact h.ne'
  | sell => exact neg_ne_zero.mpr h.ne'

/-- **Where fills leave a position**: moved by the shares of each. -/
theorem fillAll_moves (hrecorded : s.strategyPositions ≠ none)
    (hpos : ∀ f ∈ fills, 0 < f.quantity) (ht : s.fillAll fills = .ok t) :
    t.contributions = s.contributions ∧ t.budget = s.budget ∧ t.strategyPositions ≠ none ∧
      ∀ i a, t.positionOf i a = s.positionOf i a + (fills.map (fillShare s i a)).sum := by
  induction fills generalizing s with
  | nil =>
    obtain rfl := pure_ok.mp ht
    exact ⟨rfl, rfl, hrecorded, by simp⟩
  | cons f fills ih =>
    rw [AllocationState.fillAll, List.foldlM_cons, bind_ok] at ht
    obtain ⟨u, hu, ht⟩ := ht
    obtain ⟨hcontributions, hbudget, hrec, parts, hparts, hmoves⟩ :=
      recordFill_shares hrecorded (signed_ne_zero (hpos f (by simp))) hu
    obtain ⟨hc, hb, hr, hm⟩ := ih hrec (fun g hg => hpos g (by simp [hg])) ht
    refine ⟨hc.trans hcontributions, hb.trans hbudget, hr, ?_⟩
    intro i a
    have hsame : fillShare u i a = fillShare s i a := by
      funext g
      rw [fillShare, fillShare, AllocationState.contributionsFor, AllocationState.contributionsFor,
        hcontributions]
    rw [hm i a, hmoves i a, List.map_cons, List.sum_cons, hsame, fillShare, hparts, Option.elim_some,
      add_assoc]

theorem fillAll_unrecorded (h : s.strategyPositions = none) : s.fillAll fills = .ok s := by
  induction fills with
  | nil => rfl
  | cons f fills ih =>
    rw [AllocationState.fillAll, List.foldlM_cons, bind_ok]
    refine ⟨s, ?_, ih⟩
    rw [AllocationState.recordFill, if_pos (Or.inl h)]
    rfl

theorem fillAll_budget (hpos : ∀ f ∈ fills, 0 < f.quantity) (ht : s.fillAll fills = .ok t) :
    t.budget = s.budget := by
  by_cases hrecorded : s.strategyPositions = none
  · rw [ok_inj.mp ((fillAll_unrecorded hrecorded).symm.trans ht)]
  · exact (fillAll_moves hrecorded hpos ht).2.1

theorem fillShare_eq_zero {i a : String} {f : OrderFill}
    (h : a = f.order.assetId →
      i ∉ (s.contributionsFor f.order.orderId).map (·.strategyId)) : fillShare s i a f = 0 := by
  unfold fillShare
  split_ifs with ha
  · cases hparts : splitByContribution (f.order.side.signed f.quantity)
        (s.contributionsFor f.order.orderId) positionPlaces with
    | none => rfl
    | some parts =>
      rw [Option.elim_some, partOf]
      have hnone : parts.filter (·.1 = i) = [] := by
        refine List.filter_eq_nil_iff.mpr fun part hpart hi => ?_
        have hmem := List.mem_map_of_mem (f := Prod.fst) hpart
        rw [split_ids hparts, of_decide_eq_true hi] at hmem
        exact h ha hmem
      rw [hnone]
      rfl
  · rfl

theorem fillAll_pieces (o : OrderRequest) :
    s.fillAll (fills.filter (·.order = o)) =
      s.recordFills o.orderId o.assetId o.side (piecesOf fills o) := by
  have hof : ∀ f ∈ fills.filter (·.order = o), f.order = o := by
    intro f hf
    exact of_decide_eq_true (List.mem_filter.mp hf).2
  unfold AllocationState.fillAll AllocationState.recordFills piecesOf
  revert hof
  generalize fills.filter (·.order = o) = own
  intro hof
  induction own generalizing s with
  | nil => rfl
  | cons f own ih =>
    obtain rfl := hof f (by simp)
    rw [List.map_cons, List.foldlM_cons, List.foldlM_cons]
    refine bind_congr fun u => ?_
    exact ih fun g hg => hof g (by simp [hg])

/-- **Where the fills of an order leave a strategy that contributes to no other**: moved
    by its contribution, if the shares leave nothing behind. -/
theorem fillAll_contribution {o : OrderRequest} {c : StrategyContribution}
    (hrecorded : s.strategyPositions ≠ none) (hpos : ∀ f ∈ fills, 0 < f.quantity)
    (ht : s.fillAll fills = .ok t) (hcs : s.contributions.get? o.orderId = some o.contributions)
    (hids : (o.contributions.map (·.strategyId)).Nodup) (hnet : netOf o.contributions ≠ 0)
    (hside : o.side = sideOf (netOf o.contributions))
    (hfull : ((piecesOf fills o).map Prod.fst).sum = |netOf o.contributions|)
    (heven : EvenShares o.contributions o.side (piecesOf fills o)) (hc : c ∈ o.contributions)
    (hothers : ∀ f ∈ fills, f.order ≠ o → o.assetId = f.order.assetId →
      c.strategyId ∉ (s.contributionsFor f.order.orderId).map (·.strategyId)) :
    t.positionOf c.strategyId o.assetId = s.positionOf c.strategyId o.assetId + c.quantity := by
  obtain ⟨_, _, _, hmoves⟩ := fillAll_moves hrecorded hpos ht
  obtain ⟨hall, hpieces⟩ : (∀ f ∈ piecesOf fills o, 0 < f.1) ∧
      ∀ f ∈ fills.filter (·.order = o), 0 < f.quantity := by
    have hown : ∀ f ∈ fills.filter (·.order = o), 0 < f.quantity :=
      fun f hf => hpos f (List.mem_filter.mp hf).1
    refine ⟨?_, hown⟩
    intro f hf
    obtain ⟨g, hg, rfl⟩ := List.mem_map.mp hf
    exact hown g hg
  -- the order's own fills, booked alone, move the strategy by its contribution
  obtain ⟨heads, last, hconcat⟩ : ∃ heads last, o.contributions = heads ++ [last] := by
    rcases List.eq_nil_or_concat o.contributions with hnil | ⟨heads, last, hconcat⟩
    · rw [hnil] at hc
      cases hc
    · exact ⟨heads, last, by rw [hconcat, List.concat_eq_append]⟩
  rw [hside] at heven
  rw [hconcat] at hcs hids hnet hside hfull heven hc
  obtain ⟨u, hu⟩ := (recordFills_ok o.assetId _ hcs hids hnet hrecorded hall).1.mpr
    ((evenShares_iff hnet hfull).mp heven).1
  have hmoved := evenShares_move hcs hids hnet hrecorded hall hfull heven hu c hc
  rw [← hside, ← fillAll_pieces] at hu
  obtain ⟨_, _, _, hown⟩ := fillAll_moves hrecorded hpieces hu
  rw [hown] at hmoved
  -- and no other fill moves it
  have hsum : (fills.map (fillShare s c.strategyId o.assetId)).sum =
      ((fills.filter (·.order = o)).map (fillShare s c.strategyId o.assetId)).sum := by
    clear hmoved hown hu hpieces hall hmoves ht hfull heven
    induction fills with
    | nil => rfl
    | cons f fills ih =>
      have hrest := ih (fun g hg => hpos g (by simp [hg])) fun g hg => hothers g (by simp [hg])
      by_cases hf : f.order = o
      · rw [List.filter_cons_of_pos (by simpa using hf), List.map_cons, List.map_cons,
          List.sum_cons, List.sum_cons, hrest]
      · rw [List.filter_cons_of_neg (by simpa using hf), List.map_cons, List.sum_cons, hrest,
          fillShare_eq_zero (hothers f (by simp) hf), zero_add]
  rw [hmoves, hsum]
  exact hmoved

end

/-! ## Targets -/

def committedPosition (s : AllocationState) (b : AllocationInput) (i : Intent) : Decimal :=
  s.positionOf i.strategyId i.instrument + b.workingOf i.strategyId i.instrument

/-- A target of the batch, and all that its strategy asks for of the asset. -/
structure StatedAlone (b : AllocationInput) (i : Intent) : Prop where
  target : i.isTarget
  alone : ∀ j ∈ b.intents, j.isValid → j.asksForOrder → j.strategyId = i.strategyId →
    j.instrument = i.instrument → j = i

def distanceOf (s : AllocationState) (b : AllocationInput) (i : Intent) (price : Decimal) :
    Decimal :=
  targetOf s b i price - committedPosition s b i

def tradableOf (s : AllocationState) (b : AllocationInput) (i : Intent) (price : Decimal) :
    Decimal :=
  tradable b.constraints.enforceIntegerQuantities (b.lots.get? i.instrument) (distanceOf s b i price)

/-- The distance, and what trading leaves of it, fit the accounting context's digits. -/
def FitsDigits (s : AllocationState) (b : AllocationInput) (i : Intent) : Prop :=
  ∀ price, b.unitPrices.get? i.instrument = some price →
    inContext (distanceOf s b i price) = distanceOf s b i price ∧
    inContext (distanceOf s b i price - tradableOf s b i price) =
      distanceOf s b i price - tradableOf s b i price

def OrderFor (s : AllocationState) (b : AllocationInput) (i : Intent) (o : OrderRequest) : Prop :=
  o ∈ (allocate s b).2 ∧ o.assetId = i.instrument ∧
    i.strategyId ∈ o.contributions.map (·.strategyId)

/-- Whole units leave the net of the intent's order as it is, and the shares of its
    fills leave nothing behind. -/
def Undistorted (s : AllocationState) (b : AllocationInput) (fills : List OrderFill) (i : Intent) :
    Prop :=
  ∀ o, OrderFor s b i o → o.side.signed o.quantity = netOf o.contributions ∧
    EvenShares o.contributions o.side (piecesOf fills o)

section
variable {s t : AllocationState} {b : AllocationInput} {fills : List OrderFill} {i : Intent}

theorem orderOf_signed {sized : List SizedDelta} {index : ℕ} {key : String × OrderTerms} :
    (orderOf b sized index key quantity).side.signed
      (orderOf b sized index key quantity).quantity = quantity := by
  have hside : (orderOf b sized index key quantity).side = sideOf quantity := rfl
  rw [hside]
  exact sideOf_signed quantity

theorem targetDelta_eq (hfits : FitsDigits s b i) (h : targetDelta s b i = some quantity) :
    s.strategyPositions ≠ none ∧
      ∃ price, b.unitPrices.get? i.instrument = some price ∧
        quantity = tradableOf s b i price := by
  unfold targetDelta at h
  cases hpositions : s.strategyPositions with
  | none =>
    rw [hpositions] at h
    cases h
  | some positions =>
    cases hprice : b.unitPrices.get? i.instrument with
    | none =>
      rw [hpositions, hprice] at h
      cases h
    | some price =>
      rw [hpositions, hprice] at h
      dsimp only at h
      split_ifs at h with hweight hminimum
      refine ⟨by simp, price, rfl, ?_⟩
      have hexact : subtract (targetOf s b i price) (s.positionOf i.strategyId i.instrument +
          b.workingOf i.strategyId i.instrument) = distanceOf s b i price := (hfits price hprice).1
      rw [← Option.some.inj h, hexact]
      rfl

/-- An order that its intent's strategy contributes to moves it by what the intent is
    sized to, and by nothing else. -/
theorem contribution_of_target {o : OrderRequest} (hnew : Function.Injective b.newId)
    (halone : StatedAlone b i) (hfits : FitsDigits s b i) (ho : OrderFor s b i o) :
    s.strategyPositions ≠ none ∧ ∃ price, b.unitPrices.get? i.instrument = some price ∧
      (⟨i.strategyId, tradableOf s b i price⟩ : StrategyContribution) ∈ o.contributions ∧
      o.terms = i.terms := by
  obtain ⟨hmem, hasset, hids⟩ := ho
  obtain ⟨_, quantity, hget, _, index, horder⟩ := (allocate_orders hnew).2 o hmem
  obtain ⟨c, hc, hstrategy⟩ := List.mem_map.mp hids
  have hcontributions : o.contributions =
      contributionsByTerms (admittedDeltas s b) (o.assetId, o.terms) := by
    rw [horder, orderOf]
  obtain ⟨hsized, hkey⟩ := contribution_of_alone halone.alone (hcontributions ▸ hc) hstrategy hasset
  obtain ⟨quantity', hsize, _, hdelta⟩ := sizedDelta_eq_some.mp hsized
  rw [sizeIntent, if_pos halone.target] at hsize
  obtain ⟨hrecorded, price, hprice, htradable⟩ := targetDelta_eq hfits hsize
  have hquantity : c.quantity = tradableOf s b i price := by
    rw [← htradable]
    exact congrArg SizedDelta.quantity hdelta
  refine ⟨hrecorded, price, hprice, ?_, congrArg Prod.snd hkey⟩
  rw [← hquantity, ← hstrategy]
  exact hc

/-- **Where the fills of a batch leave a strategy with one target in an asset**: moved by
    what the target is sized to if its order is emitted, and otherwise not at all. -/
theorem committedPosition_filled (hnew : Function.Injective b.newId)
    (hfull : FilledInFull (allocate s b).2 fills) (ht : (allocate s b).1.fillAll fills = .ok t)
    (halone : StatedAlone b i) (hfits : FitsDigits s b i) (hundistorted : Undistorted s b fills i) :
    ((∃ o, OrderFor s b i o) → ∃ price, b.unitPrices.get? i.instrument = some price ∧
      committedPosition t b i = committedPosition s b i + tradableOf s b i price) ∧
    ((¬ ∃ o, OrderFor s b i o) → committedPosition t b i = committedPosition s b i) := by
  obtain ⟨hpositions, _⟩ := allocate_kept s b
  have hpos : ∀ j a, (allocate s b).1.positionOf j a = s.positionOf j a := by
    intro j a
    rw [AllocationState.positionOf, hpositions, AllocationState.positionOf]
  obtain ⟨hkeys, horders⟩ := allocate_orders (s := s) hnew
  have hcontributions : ∀ o ∈ (allocate s b).2,
      (allocate s b).1.contributionsFor o.orderId = o.contributions := by
    intro o ho
    rw [AllocationState.contributionsFor, (horders o ho).1, Option.getD_some]
  have hmoved : ∀ delta, t.positionOf i.strategyId i.instrument =
      (allocate s b).1.positionOf i.strategyId i.instrument + delta →
      committedPosition t b i = committedPosition s b i + delta := by
    intro delta h
    rw [committedPosition, h, hpos, committedPosition]
    ring
  have hunmoved : (¬ ∃ o, OrderFor s b i o) → committedPosition t b i = committedPosition s b i := by
    intro hnone
    by_cases hrecorded : (allocate s b).1.strategyPositions = none
    · obtain rfl := ok_inj.mp ((fillAll_unrecorded hrecorded).symm.trans ht)
      rw [hmoved 0 (add_zero _).symm, add_zero]
    · have hzero : (fills.map (fillShare (allocate s b).1 i.strategyId i.instrument)).sum = 0 := by
        refine List.sum_eq_zero fun x hx => ?_
        obtain ⟨f, hf, rfl⟩ := List.mem_map.mp hx
        have hmem := hfull.ofBatch f hf
        refine fillShare_eq_zero fun hasset hmine => hnone ⟨f.order, hmem, hasset.symm, ?_⟩
        rwa [hcontributions _ hmem] at hmine
      obtain ⟨_, _, _, hmoves⟩ := fillAll_moves hrecorded hfull.pieces_pos ht
      rw [hmoved 0 (by rw [hmoves, hzero]), add_zero]
  refine ⟨?_, hunmoved⟩
  rintro ⟨o, ho⟩
  obtain ⟨hrecorded, price, hprice, hc, hterms⟩ := contribution_of_target hnew halone hfits ho
  obtain ⟨hmem, hasset, hids⟩ := id ho
  obtain ⟨hcs, quantity, hget, hzero, index, horder⟩ := horders o hmem
  obtain ⟨hsigned, heven⟩ := hundistorted o ho
  have hnamed : (o.contributions.map (·.strategyId)).Nodup := by
    rw [horder]
    exact contributionsFrom_nodup _
  have hnet : netOf o.contributions = wholeNet b quantity := by
    rw [← hsigned, horder, orderOf_signed]
  refine ⟨price, hprice, hmoved _ ?_⟩
  rw [← hasset]
  refine fillAll_contribution (by rwa [hpositions]) hfull.pieces_pos ht hcs hnamed
    (by rw [hnet]; exact hzero) ?_ ?_ heven hc ?_
  · rw [hnet, horder]
    rfl
  · rw [hfull.full o hmem, hnet, horder]
    rfl
  · intro f hf hne hsame hmine
    rw [hcontributions _ (hfull.ofBatch f hf)] at hmine
    obtain ⟨_, _, _, _, hterms'⟩ := contribution_of_target hnew halone hfits
      ⟨hfull.ofBatch f hf, hsame ▸ hasset, hmine⟩
    refine hne (List.inj_on_of_nodup_map hkeys (hfull.ofBatch f hf) hmem ?_)
    rw [← hsame, hterms, hterms']

/-- **A target that its strategy was taken towards asks for nothing more.** -/
theorem sizedDelta_restated {b' : AllocationInput} {price : Decimal} (htarget : i.isTarget)
    (hprice : b.unitPrices.get? i.instrument = some price) (hfits : FitsDigits s b i)
    (hlot : LotWhole b.constraints.enforceIntegerQuantities (b.lots.get? i.instrument))
    (hbudget : t.budget = s.budget)
    (hmoved : committedPosition t b i = committedPosition s b i + tradableOf s b i price)
    (hprices : b'.unitPrices = b.unitPrices) (hbudgetPrices : b'.unitBudgetPrices =
      b.unitBudgetPrices) (hlots : b'.lots = b.lots) (hconstraints : b'.constraints = b.constraints)
    (hworking : b'.working = b.working) : sizedDelta t b' i = none := by
  have htargetOf : targetOf t b' i price = targetOf s b i price := by
    rw [targetOf, targetOf, hbudget, hbudgetPrices]
  have hcommitted : t.positionOf i.strategyId i.instrument + b'.workingOf i.strategyId i.instrument =
      committedPosition s b i + tradableOf s b i price := by
    rw [← hmoved, committedPosition, AllocationInput.workingOf, hworking,
      AllocationInput.workingOf]
  have hrest : subtract (targetOf t b' i price) (t.positionOf i.strategyId i.instrument +
      b'.workingOf i.strategyId i.instrument) =
      distanceOf s b i price - tradableOf s b i price := by
    rw [htargetOf, hcommitted, ← (hfits price hprice).2, subtract, distanceOf, sub_sub]
  rw [Option.eq_none_iff_forall_ne_some]
  intro d hd
  obtain ⟨quantity, hsize, hzero, _⟩ := sizedDelta_eq_some.mp hd
  rw [sizeIntent, if_pos htarget] at hsize
  unfold targetDelta at hsize
  rw [hprices, hprice, hlots, hconstraints] at hsize
  cases hpositions : t.strategyPositions with
  | none =>
    rw [hpositions] at hsize
    cases hsize
  | some positions =>
    rw [hpositions] at hsize
    dsimp only at hsize
    have hnothing : tradable b.constraints.enforceIntegerQuantities (b.lots.get? i.instrument)
        (distanceOf s b i price - tradableOf s b i price) = 0 := tradable_rest _ hlot
    rw [hrest, hnothing] at hsize
    split_ifs at hsize
    exact hzero ⟨htarget, (Option.some.inj hsize).symm⟩

theorem allocate_none (h : ∀ i ∈ b.intents, sizedDelta s b i = none) : (allocate s b).2 = [] := by
  have hsized : (sizeIntents s b (screenIntents b.timestamp b.intents).1).1 = [] := by
    rw [sizeIntents_eq, List.filterMap_eq_nil_iff]
    intro i hi
    exact h i ((screenIntents_kept _ _).1 i hi).1
  unfold allocate
  dsimp only
  rw [hsized]
  split_ifs
  · rfl
  · have hadmitted : (withinCeilings s b []).admitted = [] := by
      simpa using withinCeilings_sublist (s := s) (b := b) []
    rw [hadmitted]
    rfl
  · rfl

end

/-- **A target is approached and never overshot, and restating it asks for nothing**:
    where one target is all a strategy asks for of an asset, whole units leave the net of
    its order as it is, and its fills' shares leave nothing behind. -/
theorem targets_approached {s t : AllocationState} {b : AllocationInput} {fills : List OrderFill}
    (hnew : Function.Injective b.newId) (hfull : FilledInFull (allocate s b).2 fills)
    (ht : (allocate s b).1.fillAll fills = .ok t) :
    (∀ i price, StatedAlone b i → FitsDigits s b i → Undistorted s b fills i →
      b.unitPrices.get? i.instrument = some price →
      committedPosition t b i ∈ Set.uIcc (committedPosition s b i) (targetOf s b i price)) ∧
    ∀ b', b'.unitPrices = b.unitPrices → b'.unitBudgetPrices = b.unitBudgetPrices →
      b'.lots = b.lots → b'.constraints = b.constraints → b'.working = b.working →
      (∀ i ∈ b'.intents, StatedAlone b i ∧ FitsDigits s b i ∧ Undistorted s b fills i ∧
        LotWhole b.constraints.enforceIntegerQuantities (b.lots.get? i.instrument) ∧
        ∃ o, OrderFor s b i o) → (allocate t b').2 = [] := by
  constructor
  · intro i price halone hfits hundistorted hprice
    obtain ⟨hmoved, hunmoved⟩ :=
      committedPosition_filled hnew hfull ht halone hfits hundistorted
    by_cases hemitted : ∃ o, OrderFor s b i o
    · obtain ⟨price', hprice', hposition⟩ := hmoved hemitted
      obtain rfl := Option.some.inj (hprice.symm.trans hprice')
      have hbetween := tradable_between (distanceOf s b i price)
        b.constraints.enforceIntegerQuantities (b.lots.get? i.instrument)
      rw [hposition]
      rw [Set.mem_uIcc] at hbetween ⊢
      unfold tradableOf
      unfold distanceOf at hbetween ⊢
      rcases hbetween with ⟨hlow, hhigh⟩ | ⟨hlow, hhigh⟩
      · exact Or.inl ⟨by linarith, by linarith⟩
      · exact Or.inr ⟨by linarith, by linarith⟩
    · rw [hunmoved hemitted]
      exact Set.left_mem_uIcc
  · intro b' hprices hbudgetPrices hlots hconstraints hworking hstated
    refine allocate_none fun i hi => ?_
    obtain ⟨halone, hfits, hundistorted, hlot, hemitted⟩ := hstated i hi
    obtain ⟨price, hprice, hposition⟩ :=
      (committedPosition_filled hnew hfull ht halone hfits hundistorted).1 hemitted
    refine sizedDelta_restated halone.target hprice hfits hlot ?_ hposition hprices hbudgetPrices
      hlots hconstraints hworking
    rw [fillAll_budget hfull.pieces_pos ht, (allocate_kept s b).2]

/-! ## A target beside a delta -/

def thousandState : AllocationState where
  budget := {
    globalCapital := 1000
    maximumExposure := 1000 }

/-- `A` asks to hold 10.4 units of `X`, and `other` for 5 more. -/
def targetAndDelta (other : String) : AllocationInput where
  intents := [
    { strategyId := "A", instrument := "X", target := 10.4, kind := .targetQuantity },
    { strategyId := other, instrument := "X", target := 5 }]
  marketPrices := Dict.empty.set "X" 1
  sizingModel := fixedQuantitySizing
  constraints := { enforceIntegerQuantities := true }
  timestamp := 0
  newId := fun n => String.ofList (List.replicate n 'o')

def atOnce (orders : List OrderRequest) : List OrderFill :=
  orders.map fun o => ⟨o, o.quantity, none⟩

theorem newId_injective (other : String) : Function.Injective (targetAndDelta other).newId := by
  intro n m h
  have hlength := congrArg String.length h
  simpa [targetAndDelta] using hlength

/-- **A strategy that asks for more beside its target ends past it**: its intents are
    sized one at a time. -/
theorem delta_beside_target_overshoots :
    ∃ t, (allocate thousandState (targetAndDelta "A")).1.fillAll
        (atOnce (allocate thousandState (targetAndDelta "A")).2) = .ok t ∧
      t.positionOf "A" "X" = 15 ∧
      (allocate t { targetAndDelta "A" with intents := (targetAndDelta "A").intents.take 1 }).2 ≠
        [] := by
  exact exists_ok_of (fun t : AllocationState => t.positionOf "A" "X" = 15 ∧
    (allocate t { targetAndDelta "A" with intents := (targetAndDelta "A").intents.take 1 }).2 ≠ [])
    (by decide +kernel)

/-- A strategy whose target another strategy's purchase is netted with is taken to the
    last whole unit below it, and no further. -/
theorem targets_approached_netted :
    ∃ t, (allocate thousandState (targetAndDelta "B")).1.fillAll
        (atOnce (allocate thousandState (targetAndDelta "B")).2) = .ok t ∧
      (∀ i ∈ (targetAndDelta "B").intents.take 1, committedPosition t (targetAndDelta "B") i ∈
        Set.uIcc (committedPosition thousandState (targetAndDelta "B") i) 10.4) ∧
      (allocate t { targetAndDelta "B" with intents := (targetAndDelta "B").intents.take 1 }).2 =
        [] := by
  obtain ⟨t, ht, _⟩ := exists_ok_of (x := (allocate thousandState (targetAndDelta "B")).1.fillAll
    (atOnce (allocate thousandState (targetAndDelta "B")).2)) (fun _ => True) (by decide +kernel)
  have hfull : FilledInFull (allocate thousandState (targetAndDelta "B")).2
      (atOnce (allocate thousandState (targetAndDelta "B")).2) :=
    ⟨by decide +kernel, by decide +kernel, by decide +kernel⟩
  have hprice : (targetAndDelta "B").unitPrices.get? "X" = some 1 := by decide +kernel
  have hfits : ∀ i ∈ (targetAndDelta "B").intents.take 1,
      FitsDigits thousandState (targetAndDelta "B") i := by
    intro i hi price h
    obtain rfl := List.mem_singleton.mp hi
    obtain rfl := Option.some.inj (hprice.symm.trans h)
    decide +kernel
  have halone : ∀ i ∈ (targetAndDelta "B").intents.take 1,
      StatedAlone (targetAndDelta "B") i := by
    intro i hi
    obtain rfl := List.mem_singleton.mp hi
    exact ⟨rfl, by decide +kernel⟩
  have horders : ∀ o ∈ (allocate thousandState (targetAndDelta "B")).2,
      o.side.signed o.quantity = netOf o.contributions ∧ EvenShares o.contributions o.side
        (piecesOf (atOnce (allocate thousandState (targetAndDelta "B")).2) o) := by
    decide +kernel
  have hundistorted : ∀ i, Undistorted thousandState (targetAndDelta "B")
      (atOnce (allocate thousandState (targetAndDelta "B")).2) i :=
    fun i o ho => horders o ho.1
  obtain ⟨hbetween, hrestated⟩ := targets_approached (newId_injective "B") hfull ht
  refine ⟨t, ht, ?_, ?_⟩
  · intro i hi
    have hi' := hbetween i 1 (halone i hi) (hfits i hi) (hundistorted i)
    obtain rfl := List.mem_singleton.mp hi
    have htarget : ∀ i ∈ (targetAndDelta "B").intents.take 1,
        targetOf thousandState (targetAndDelta "B") i 1 = 10.4 := by decide +kernel
    rw [htarget _ hi] at hi'
    exact hi' hprice
  · refine hrestated _ rfl rfl rfl rfl rfl ?_
    intro i hi
    refine ⟨halone i hi, hfits i hi, hundistorted i, ?_, ?_⟩
    · intro l hl
      obtain rfl := List.mem_singleton.mp hi
      cases hl
    · have hemitted : ∀ i ∈ (targetAndDelta "B").intents.take 1,
          ∃ o ∈ (allocate thousandState (targetAndDelta "B")).2, o.assetId = i.instrument ∧
            i.strategyId ∈ o.contributions.map (·.strategyId) := by
        decide +kernel
      exact hemitted i hi

end AlphaLab
