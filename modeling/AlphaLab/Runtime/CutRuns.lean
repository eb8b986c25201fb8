/-
  An order cut in place, over runs of the simulated pipeline.

  * `AllocatedOrder` is an order of one strategy and what its allocation judged it
    against; `reserves` and `commits` are what an allocation of a quantity holds;
  * `HoldsAs`: the account and the strategy hold for the order what they would have
    held for an order of its quantity, after the same fills;
  * `AllocatedOrder.CutsAlike`: what stands against the order as it is cut is what
    stood against it when it was allocated, or makes no difference;
  * `cut_order_holds_smaller`: a run of such cuts keeps `HoldsAs`.
-/
import AlphaLab.Lib.Ties
import AlphaLab.Runtime.CutEntries

namespace AlphaLab

open Fallible

/-! ## What an order was allocated against -/

structure AllocatedOrder where
  orderId : String
  strategyId : String
  side : Side
  held : Option Decimal
  /-- What the strategy had in the asset before it, filled and working. -/
  own : Decimal
  unitValue : Decimal
  named : orderId ≠ ""

namespace AllocatedOrder

variable (a : AllocatedOrder)

/-- What an allocation of `quantity` reserves of the account. -/
def reserves (quantity : Decimal) : Decimal :=
  multiply (accountAdding a.held (a.side.signed quantity)) |a.unitValue|

/-- What an allocation of `quantity` commits of the strategy's ceiling. -/
def commits (quantity : Decimal) : Decimal :=
  multiply (addingExposure a.own (a.side.signed quantity)) |a.unitValue|

/-- The units of it that reserve nothing: what stood against it, to close and to open. -/
def unreserved : Decimal := a.held.elim 0 fun held => 2 * a.side.against held

def uncommitted : Decimal := a.side.against a.own

/-- The amounts of an order of `quantity` need no rounding. -/
structure Digits (quantity : Decimal) : Prop where
  reserves : Exact (|a.unitValue| * max 0 (quantity - a.unreserved))
  commits : Exact (|a.unitValue| * max 0 (quantity - a.uncommitted))

/-- **What is held is what an order of `quantity` would hold**, of which `filled` units
    are filled, `added` of them to the strategy's position. -/
structure HoldsAs (s : AllocationState) (added quantity filled : Decimal) : Prop where
  reserved : s.reservedNotional a.orderId =
    max 0 (a.reserves quantity - |a.unitValue| * filled)
  committed : (s.capitalOf a.strategyId).reservedFor a.orderId =
    (s.budget.strategyCeiling a.strategyId).elim 0 fun _ =>
      max 0 (a.commits quantity - |a.unitValue| * added)

/-- What the run keeps of the order: it is of the one strategy, and holds as it would. -/
structure Kept (s : AllocationState) (added quantity filled : Decimal) : Prop where
  quantityPos : 0 < quantity
  filledNonneg : 0 ≤ filled
  addedNonneg : 0 ≤ added
  digits : a.Digits quantity
  contributes : ∃ q, s.contributions.get? a.orderId = some [⟨a.strategyId, q⟩] ∧ q ≠ 0 ∧
    (0 < q ↔ a.side = .buy)
  holds : a.HoldsAs s added quantity filled

end AllocatedOrder

/-! ## Runs -/

/-- A run of the pipeline, and what the fills of an order have added to its strategy's
    position. -/
structure FollowedRun where
  routing : RoutingState
  added : Decimal := 0

def PipelineCall.added (a : AllocatedOrder) (s : RoutingState) : PipelineCall → Decimal
  | .fill orderId _ report =>
    if orderId = a.orderId then
      addingExposure (s.pipeline.allocation.positionOf a.strategyId report.assetId)
        (a.side.signed report.fillQuantity)
    else 0
  | _ => 0

def followedStep (c : PipelineConfig) (a : AllocatedOrder) (s : FollowedRun)
    (call : PipelineCall) : Except PipelineRefusal FollowedRun := do
  let routing ← pipelineStep c s.routing call
  pure ⟨routing, s.added + call.added a s.routing⟩

namespace AllocatedOrder

variable (a : AllocatedOrder)

/-- **A fill at the value the order was allocated at**, its amounts exact. -/
structure FillsAt (c : PipelineConfig) (s : RoutingState) (rates : FxRates)
    (report : ExecutionReport) : Prop where
  trades : report.status = .fullFill ∨ report.status = .partialFill ∨ report.fillQuantity = 0
  value : executedNotional c rates { report with orderId := a.orderId } =
    .ok (|a.unitValue| * report.fillQuantity)
  unit : Exact |a.unitValue|
  left : Exact (s.pipeline.allocation.reservedNotional a.orderId -
    min (s.pipeline.allocation.reservedNotional a.orderId)
      (|a.unitValue| * report.fillQuantity))
  deployed : Exact (addingExposure
    (s.pipeline.allocation.positionOf a.strategyId report.assetId)
    (a.side.signed report.fillQuantity) * |a.unitValue|)

/-- A cut of what holds nothing for `unreserved` units, where `standing` now add nothing:
    alike, and its amounts exact. -/
structure ShareAlike (unreserved standing was now : Decimal) : Prop where
  alike : CutAlike unreserved standing was now
  share : Exact (|a.unitValue| * max 0 (was - unreserved) * cutBy standing was now)
  kept : Exact (|a.unitValue| * max 0 (now - unreserved))

/-- **The cuts that keep what the smaller order would hold.**  `before` is the position
    without the order: the account's as it is committed now, and the strategy's. -/
structure CutsAlike (s : PipelineState) (added : Decimal) (o : Order) (remaining : Decimal) :
    Prop where
  least : 0 ≤ remaining
  cut : remaining < o.remainingQuantity
  quantities : Exact remaining ∧ Exact o.remainingQuantity ∧
    Exact (o.filledQuantity + remaining)
  digits : a.Digits (o.filledQuantity + remaining)
  account : 0 < s.allocation.reservedNotional a.orderId →
    ∃ before, subtract (s.committedPosition o.assetId) (a.side.signed o.remainingQuantity) =
        before ∧
      (∀ quantity ∈ [o.remainingQuantity, remaining],
        Exact (before + a.side.signed quantity) ∧
          Exact (|before + a.side.signed quantity| - |before|)) ∧
      a.ShareAlike a.unreserved (2 * a.side.against before) o.remainingQuantity remaining
  strategy : 0 < (s.allocation.capitalOf a.strategyId).reservedFor a.orderId →
    ∀ working, s.workingShare a.strategyId o.assetId = .ok working →
      a.ShareAlike (a.uncommitted + added - o.filledQuantity)
        (a.side.against (subtract
          (add (s.allocation.positionOf a.strategyId o.assetId) working)
          (a.side.signed o.remainingQuantity)))
        o.remainingQuantity remaining

end AllocatedOrder

/-- What a call of a simulated run must meet: batches are named anew, and the order is
    filled at its value and cut alike. -/
def PipelineCall.KeepsShare (c : PipelineConfig) (a : AllocatedOrder) (s : FollowedRun) :
    PipelineCall → Prop
  | .allocate batch => (PipelineCall.allocate batch).NamedAnew s.routing
  | .fill orderId rates report => orderId = a.orderId → a.FillsAt c s.routing rates report
  | .reduce orderId remaining _ => orderId = a.orderId →
    ∀ o, s.routing.pipeline.orders.get? orderId = some o →
      a.CutsAlike s.routing.pipeline s.added o remaining
  -- a venue's reports are no part of a simulated run
  | .venueReport .. => False
  | _ => True

/-! ## What the order holds -/

section
variable {a : AllocatedOrder} {s t : AllocationState} {added quantity filled : Decimal}

theorem AllocatedOrder.Digits.reserves_eq (h : a.Digits quantity) (hquantity : 0 ≤ quantity)
    (hfilled : 0 ≤ filled) :
    max 0 (a.reserves quantity - |a.unitValue| * filled) =
      |a.unitValue| * max 0 (quantity - filled - a.unreserved) := by
  have hexact : a.reserves quantity = |a.unitValue| * max 0 (quantity - a.unreserved) := by
    unfold AllocatedOrder.reserves
    rw [accountAdding_signed hquantity, multiply, mul_comm]
    exact h.reserves
  rw [hexact, held_after (abs_nonneg _) hfilled]

theorem AllocatedOrder.Digits.commits_eq (h : a.Digits quantity) (hquantity : 0 ≤ quantity)
    (hadded : 0 ≤ added) :
    max 0 (a.commits quantity - |a.unitValue| * added) =
      |a.unitValue| * max 0 (quantity - added - a.uncommitted) := by
  have hexact : a.commits quantity = |a.unitValue| * max 0 (quantity - a.uncommitted) := by
    unfold AllocatedOrder.commits
    rw [addingExposure_signed hquantity, multiply, mul_comm]
    exact h.commits
  rw [hexact, held_after (abs_nonneg _) hadded]

theorem use_of_held {unit units used : Decimal} (hunit : 0 ≤ unit) (hused : 0 ≤ used) :
    unit * max 0 units - min (unit * max 0 units) (unit * used) =
      unit * max 0 (units - used) := by
  rw [← mul_min_of_nonneg _ _ hunit, ← mul_sub]
  congr 1
  rcases le_total units used with hle | hle
  · have hleft : max 0 units ≤ used := max_le hused hle
    rw [min_eq_left hleft, sub_self, max_eq_left (by linarith)]
  · rw [max_eq_right (by linarith), min_eq_right hle, max_eq_right (by linarith)]

theorem AllocatedOrder.ShareAlike.keeps {unreserved standing was now : Decimal}
    {before reserved : Decimal} {adds : Decimal → Decimal → Decimal}
    (h : a.ShareAlike unreserved standing was now) (hnow : 0 ≤ now) (hcut : now < was)
    (hreserved : reserved = |a.unitValue| * max 0 (was - unreserved)) (hpos : 0 < reserved)
    (haddsWas : adds before (a.side.signed was) = max 0 (was - standing))
    (haddsNow : adds before (a.side.signed now) = max 0 (now - standing)) :
    stillAdded reserved before (a.side.signed was) (a.side.signed now) adds =
      |a.unitValue| * max 0 (now - unreserved) := by
  subst hreserved
  have hunit : 0 < |a.unitValue| := by
    refine (abs_nonneg _).lt_of_ne ?_
    intro hzero
    rw [← hzero, zero_mul] at hpos
    exact hpos.false
  have hholds : unreserved < was := by
    by_contra hle
    rw [max_eq_left (by linarith), mul_zero] at hpos
    exact hpos.false
  rw [stillAdded_share (hnow.trans hcut.le) hnow haddsWas haddsNow h.share,
    (share_iff hunit hholds hnow hcut).mpr h.alike]
  exact h.kept

theorem stillAdded_zero (before was now : Decimal) (adds : Decimal → Decimal → Decimal) :
    stillAdded 0 before was now adds = 0 := by
  unfold stillAdded
  simp [divide]

theorem AllocatedOrder.Kept.congr (h : a.Kept s added quantity filled)
    (hsame : EntrySame a.orderId a.strategyId s t) : a.Kept t added quantity filled := by
  refine ⟨h.quantityPos, h.filledNonneg, h.addedNonneg, h.digits, ?_, ?_, ?_⟩
  · rw [hsame.contributions]
    exact h.contributes
  · rw [AllocationState.reservedNotional, hsame.reservation]
    exact h.holds.reserved
  · rw [StrategyCapital.reservedFor, hsame.capital, hsame.budget]
    exact h.holds.committed

end

/-! ## Fills of the order -/

theorem StrategyCapital.reservedFor_filled (c : StrategyCapital) (orderId assetId : String)
    {held quantity unitValue : Decimal} (hreserved : 0 ≤ c.reservedFor orderId)
    (hdeploys : 0 ≤ deploys held quantity unitValue) :
    (c.fill orderId assetId held quantity unitValue).reservedFor orderId =
      c.reservedFor orderId - min (c.reservedFor orderId) (deploys held quantity unitValue) := by
  unfold fill
  unfold reservedFor at hreserved ⊢
  dsimp only
  cases hget : c.reserved.get? orderId with
  | none =>
    simp only [hget, Option.getD_none, min_eq_left hdeploys, sub_zero]
  | some heldBack =>
    simp only [hget, Option.getD_some] at hreserved ⊢
    split_ifs with hpos hleft
    · simp
    · have hall : heldBack - min heldBack (deploys held quantity unitValue) = 0 :=
        le_antisymm (not_lt.mp hleft) (sub_nonneg.mpr (min_le_left _ _))
      simp [hall]
    · have hzero : deploys held quantity unitValue = 0 := le_antisymm (not_lt.mp hpos) hdeploys
      rw [hzero, min_eq_right hreserved, sub_zero]
      simp [hget]

theorem splitByContribution_alone {c : StrategyContribution} (h : c.quantity ≠ 0)
    (amount : Decimal) (places : ℕ) :
    splitByContribution amount [c] places = some [(c.strategyId, amount)] := by
  simp [splitByContribution, netOf, h]

theorem reservedNotional_executed (s : AllocationState) (orderId : String) {notional : Decimal}
    (timestamp : Instant) (hnotional : 0 ≤ notional)
    (hexact : Exact (s.reservedNotional orderId - min (s.reservedNotional orderId) notional)) :
    (s.applyExecution orderId notional timestamp).reservedNotional orderId =
      s.reservedNotional orderId - min (s.reservedNotional orderId) notional := by
  unfold AllocationState.reservedNotional at *
  cases hget : s.reservations.get? orderId with
  | none =>
    have hnone : (s.applyExecution orderId notional timestamp).reservations =
        s.reservations := by
      unfold AllocationState.applyExecution
      simp only [hget]
    rw [hnone, hget, Option.getD_none, min_eq_left hnotional, sub_zero]
  | some held =>
    rw [hget, Option.getD_some] at hexact
    have hleft : subtract held (min held notional) = held - min held notional := hexact
    have hnonneg : 0 ≤ held - min held notional := sub_nonneg.mpr (min_le_left _ _)
    have hsome : (s.applyExecution orderId notional timestamp).reservations =
        if subtract held (min held notional) ≤ 0 then s.reservations.delete orderId
        else s.reservations.set orderId (subtract held (min held notional)) := by
      unfold AllocationState.applyExecution
      simp only [hget]
      rfl
    rw [hsome, Option.getD_some, hleft]
    split_ifs with hle
    · rw [Dict.get?_delete_self, Option.getD_none, le_antisymm hle hnonneg]
    · rw [Dict.get?_set_self, Option.getD_some]

variable {assetId : String}

section
variable {a : AllocatedOrder} {s t : AllocationState} {added quantity filled : Decimal}

theorem side_signed_zero (side : Side) : side.signed 0 = 0 := by
  cases side with
  | buy => rfl
  | sell => exact neg_zero

variable {units : Decimal}

theorem AllocatedOrder.Kept.recordFill (h : a.Kept s added quantity filled)
    (hrecorded : s.strategyPositions ≠ none) (hunits : 0 ≤ units) (hunit : Exact |a.unitValue|)
    (hdeployed : Exact (addingExposure (s.positionOf a.strategyId assetId) (a.side.signed units) *
      |a.unitValue|)) (hfill : s.recordFill a.orderId assetId (a.side.signed units) (some
      (|a.unitValue| * units)) = .ok t) :
    (t.capitalOf a.strategyId).reservedFor a.orderId =
      (t.budget.strategyCeiling a.strategyId).elim 0 fun _ => |a.unitValue| *
        max 0 (quantity - (added + addingExposure (s.positionOf a.strategyId assetId)
          (a.side.signed units)) - a.uncommitted) := by
  have hadds : 0 ≤ addingExposure (s.positionOf a.strategyId assetId) (a.side.signed units) :=
    addingExposure_nonneg _ _
  have hbefore : (s.capitalOf a.strategyId).reservedFor a.orderId =
      (s.budget.strategyCeiling a.strategyId).elim 0 fun _ =>
        |a.unitValue| * max 0 (quantity - added - a.uncommitted) := by
    rw [h.holds.committed, h.digits.commits_eq h.quantityPos.le h.addedNonneg]
  unfold AllocationState.recordFill at hfill
  dsimp only at hfill
  rcases hunits.eq_or_lt with rfl | hpos
  · -- a report of no trade
    rw [if_pos (Or.inr (Or.inr (side_signed_zero a.side)))] at hfill
    obtain rfl := pure_ok.mp hfill
    rw [hbefore, addingExposure_signed le_rfl, zero_sub,
      max_eq_left (neg_nonpos.mpr (a.side.against_nonneg _)), add_zero]
  · obtain ⟨q, hcontributions, hq, -⟩ := h.contributes
    have hsigned : a.side.signed units ≠ 0 := by
      rw [← abs_pos, abs_side_signed]
      exact abs_pos.mpr hpos.ne'
    have hsome : ¬ (s.strategyPositions = none ∨ s.contributionsFor a.orderId = [] ∨
        a.side.signed units = 0) := by
      rw [AllocationState.contributionsFor, hcontributions]
      simp [hrecorded, hsigned]
    rw [if_neg hsome] at hfill
    obtain ⟨parts, hparts, hfill⟩ := bind_ok.mp hfill
    rw [orRefuse_ok, AllocationState.contributionsFor, hcontributions, Option.getD_some,
      splitByContribution_alone hq] at hparts
    obtain rfl := Option.some.inj hparts
    obtain rfl := pure_ok.mp hfill
    rw [List.foldl_cons, List.foldl_nil, bookShare_budget, capitalOf_bookShare]
    cases hceiling : s.budget.strategyCeiling a.strategyId with
    | none =>
      rw [hceiling] at hbefore
      cases s.unitValueOf (a.side.signed units) (some (|a.unitValue| * units)) with
      | none => exact hbefore
      | some value => exact hbefore
    | some ceiling =>
      have henforced : s.budget.enforceStrategyBudgets = true := by
        by_contra hno
        rw [CapitalBudget.strategyCeiling, if_neg hno] at hceiling
        cases hceiling
      have hvalue : s.unitValueOf (a.side.signed units) (some (|a.unitValue| * units)) =
          some |a.unitValue| := by
        rw [AllocationState.unitValueOf, if_pos henforced, Option.map_some, abs_side_signed,
          abs_of_pos hpos, divide, mul_div_cancel_right₀ _ hpos.ne']
        exact congrArg some hunit
      have hdeploys : StrategyCapital.deploys (s.positionOf a.strategyId assetId)
          (a.side.signed units) |a.unitValue| = |a.unitValue| *
            addingExposure (s.positionOf a.strategyId assetId) (a.side.signed units) := by
        rw [mul_comm]
        exact hdeployed
      rw [hvalue]
      dsimp only
      rw [if_pos rfl, StrategyCapital.reservedFor_filled, hbefore, hceiling, hdeploys,
        Option.elim_some, Option.elim_some, use_of_held (abs_nonneg _) hadds]
      · ring_nf
      · rw [hbefore, hceiling]
        exact mul_nonneg (abs_nonneg _) (le_max_left _ _)
      · rw [hdeploys]
        exact mul_nonneg (abs_nonneg _) hadds

theorem recordFill_recorded {orderId assetId : String} {signed : Decimal}
    {notional : Option Decimal} (hrecorded : s.strategyPositions ≠ none)
    (h : s.recordFill orderId assetId signed notional = .ok t) : t.strategyPositions ≠ none := by
  unfold AllocationState.recordFill at h
  dsimp only at h
  split_ifs at h
  · rwa [← pure_ok.mp h]
  · obtain ⟨parts, -, h⟩ := bind_ok.mp h
    rw [← pure_ok.mp h]
    exact (positionOf_bookShares orderId assetId _ parts hrecorded "" "").2

/-- **A fill at the order's value** leaves what the order would hold after it. -/
theorem AllocatedOrder.Kept.fill (h : a.Kept s added quantity filled)
    (hrecorded : s.strategyPositions ≠ none) (hunits : 0 ≤ units) (hunit : Exact |a.unitValue|)
    (hdeployed : Exact (addingExposure (s.positionOf a.strategyId assetId) (a.side.signed units) *
      |a.unitValue|)) (hleft : Exact (s.reservedNotional a.orderId - min (s.reservedNotional
      a.orderId) (|a.unitValue| * units))) (hfill : s.recordFill a.orderId assetId (a.side.signed
      units) (some (|a.unitValue| * units)) = .ok t) (timestamp : Instant) :
    a.Kept (t.applyExecution a.orderId (|a.unitValue| * units) timestamp)
      (added + addingExposure (s.positionOf a.strategyId assetId) (a.side.signed units))
      quantity (filled + units) := by
  have hkept := recordFill_kept hfill
  have hcommitted := h.recordFill hrecorded hunits hunit hdeployed hfill
  have hfilled : 0 ≤ filled + units := add_nonneg h.filledNonneg hunits
  have hadded := add_nonneg h.addedNonneg
    (addingExposure_nonneg (s.positionOf a.strategyId assetId) (a.side.signed units))
  have hbefore : s.reservedNotional a.orderId =
      |a.unitValue| * max 0 (quantity - filled - a.unreserved) := by
    rw [h.holds.reserved, h.digits.reserves_eq h.quantityPos.le h.filledNonneg]
  have hsame : t.reservedNotional a.orderId = s.reservedNotional a.orderId := by
    rw [AllocationState.reservedNotional, hkept.reservations]
    rfl
  refine ⟨h.quantityPos, hfilled, hadded, h.digits, ?_, ?_, ?_⟩
  · obtain ⟨q, hcontributions, hq⟩ := h.contributes
    refine ⟨q, ?_, hq⟩
    change t.contributions.get? a.orderId = _
    rw [hkept.contributions, hcontributions]
  · have hnonneg : 0 ≤ |a.unitValue| * units := mul_nonneg (abs_nonneg _) hunits
    rw [reservedNotional_executed _ _ _ hnonneg, hsame, hbefore,
      use_of_held (abs_nonneg _) hunits, h.digits.reserves_eq h.quantityPos.le hfilled]
    · ring_nf
    · rwa [hsame]
  · change (t.capitalOf a.strategyId).reservedFor a.orderId =
      (t.budget.strategyCeiling a.strategyId).elim 0 _
    rw [hcommitted, h.digits.commits_eq h.quantityPos.le hadded]

end

/-! ## Cuts of the order -/

theorem StrategyCapital.reservedFor_reduced (c : StrategyCapital) {orderId : String}
    {held amount : Decimal} (hget : c.reserved.get? orderId = some held) (hnonneg : 0 ≤ amount)
    (hle : amount ≤ held) : (c.reduce orderId amount).reservedFor orderId = amount := by
  unfold reduce
  rw [hget]
  dsimp only
  split_ifs with hall hpos
  · rw [reservedFor, hget, Option.getD_some, le_antisymm hall hle]
  · simp [reservedFor, max_eq_right hnonneg]
  · have hzero : amount = 0 :=
      le_antisymm (not_lt.mp (max_eq_right hnonneg ▸ hpos)) hnonneg
    simp [reservedFor, hzero]

section
variable {a : AllocatedOrder} {s t : PipelineState} {added : Decimal} {o : Order}
  {remaining sign : Decimal}

theorem multiply_sign (side : Side) {x : Decimal} (h : Exact x) (hsign : sign = side.signed 1) :
    multiply sign x = side.signed x := by
  subst hsign
  cases side with
  | buy =>
    change inContext (1 * x) = x
    rw [one_mul]
    exact h
  | sell =>
    change inContext (-1 * x) = -x
    rw [neg_one_mul, inContext, Rounding.roundSig_odd]
    exact congrArg _ h

variable {unit was now : Decimal}

theorem held_le (unreserved : Decimal) (hunit : 0 ≤ unit) (hcut : now ≤ was) :
    unit * max 0 (now - unreserved) ≤ unit * max 0 (was - unreserved) :=
  mul_le_mul_of_nonneg_left (max_le_max le_rfl (sub_le_sub_right hcut _)) hunit

/-- **The account's reservation after a cut that is alike.** -/
theorem AllocatedOrder.CutsAlike.reserved (hcuts : a.CutsAlike s added o remaining)
    (hid : o.orderId = a.orderId) (hsign : sign = a.side.signed 1)
    (hreserved : s.allocation.reservedNotional a.orderId =
      |a.unitValue| * max 0 (o.remainingQuantity - a.unreserved)) :
    (s.cutEntry o sign remaining).reservedNotional a.orderId =
      |a.unitValue| * max 0 (remaining - a.unreserved) := by
  obtain ⟨hremaining, hwas, -⟩ := hcuts.quantities
  have hwasPos : 0 < o.remainingQuantity := hcuts.least.trans_lt hcuts.cut
  have hless := held_le a.unreserved (abs_nonneg a.unitValue) hcuts.cut.le
  have hnonneg : 0 ≤ |a.unitValue| * max 0 (remaining - a.unreserved) :=
    mul_nonneg (abs_nonneg _) (le_max_left _ _)
  -- where nothing is held, nothing is kept
  have hnothing : s.allocation.reservedNotional a.orderId = 0 →
      0 = |a.unitValue| * max 0 (remaining - a.unreserved) := by
    intro hzero
    rw [← hreserved, hzero] at hless
    exact le_antisymm hnonneg hless
  unfold PipelineState.cutEntry
  rw [hid]
  cases hget : s.allocation.reservations.get? a.orderId with
  | none =>
    have hzero : s.allocation.reservedNotional a.orderId = 0 := by
      rw [AllocationState.reservedNotional, hget, Option.getD_none]
    exact hzero.trans (hnothing hzero)
  | some reserved =>
    have hheld : s.allocation.reservedNotional a.orderId = reserved := by
      rw [AllocationState.reservedNotional, hget, Option.getD_some]
    dsimp only
    rw [if_neg hwasPos.ne', AllocationState.reservedNotional, AllocationState.cutReservation,
      Dict.get?_set_self, Option.getD_some]
    unfold PipelineState.reservationKept
    dsimp only
    rw [multiply_sign a.side hwas hsign, multiply_sign a.side hremaining hsign]
    rcases (hreserved.symm.trans hheld ▸
      mul_nonneg (abs_nonneg a.unitValue) (le_max_left _ _) : 0 ≤ reserved).eq_or_lt with hzero | hpos
    · rw [← hzero, stillAdded_zero]
      exact hnothing (hheld.trans hzero.symm)
    · obtain ⟨before, hbefore, hexact, halike⟩ := hcuts.account (hheld ▸ hpos)
      obtain ⟨hsumWas, haddsWas⟩ := hexact o.remainingQuantity (by simp)
      obtain ⟨hsumNow, haddsNow⟩ := hexact remaining (by simp)
      rw [hbefore]
      exact halike.keeps hcuts.least hcuts.cut (hheld.symm.trans hreserved) hpos
        (addsToAccount_signed hwasPos.le hsumWas haddsWas)
        (addsToAccount_signed hcuts.least hsumNow haddsNow)

/-- What a cut's reservation leaves of the strategies' ledgers. -/
theorem cutEntry_kept (s : PipelineState) (o : Order) (sign remaining : Decimal) :
    (s.cutEntry o sign remaining).strategyCapital = s.allocation.strategyCapital ∧
      (s.cutEntry o sign remaining).strategyPositions = s.allocation.strategyPositions ∧
      (s.cutEntry o sign remaining).budget = s.allocation.budget ∧
      (s.cutEntry o sign remaining).history = s.allocation.history := by
  unfold PipelineState.cutEntry
  split
  · exact ⟨rfl, rfl, rfl, rfl⟩
  · split_ifs
    · exact ⟨rfl, rfl, rfl, rfl⟩
    · exact ⟨rfl, rfl, rfl, rfl⟩

/-- **The strategy's capital after a cut that is alike.** -/
theorem AllocatedOrder.CutsAlike.committed {reduced : AllocationState}
    (hcuts : a.CutsAlike s added o remaining) (hid : o.orderId = a.orderId)
    (hsign : sign = a.side.signed 1) (ceiling : Option Decimal)
    (hcommitted : (s.allocation.capitalOf a.strategyId).reservedFor a.orderId =
      ceiling.elim 0 fun _ => |a.unitValue| *
        max 0 (o.remainingQuantity - (a.uncommitted + added - o.filledQuantity)))
    (hreduced : s.reduceCapital (s.cutEntry o sign remaining) o a.strategyId sign remaining =
      .ok reduced) :
    EntriesKept (s.cutEntry o sign remaining) reduced ∧
      reduced.strategyPositions = s.allocation.strategyPositions ∧
      (reduced.capitalOf a.strategyId).reservedFor a.orderId =
        ceiling.elim 0 fun _ => |a.unitValue| *
          max 0 (remaining - (a.uncommitted + added - o.filledQuantity)) := by
  obtain ⟨hcapital, hpositions, -⟩ := cutEntry_kept s o sign remaining
  obtain ⟨hremaining, hwas, -⟩ := hcuts.quantities
  have hwasPos : 0 < o.remainingQuantity := hcuts.least.trans_lt hcuts.cut
  set unreserved := a.uncommitted + added - o.filledQuantity with hunreserved
  set kept := ceiling.elim 0 fun _ => |a.unitValue| * max 0 (remaining - unreserved) with hkept
  have hnonneg : 0 ≤ kept := by
    cases ceiling with
    | none => exact le_rfl
    | some _ => exact mul_nonneg (abs_nonneg _) (le_max_left _ _)
  have hless : kept ≤ (s.allocation.capitalOf a.strategyId).reservedFor a.orderId := by
    rw [hcommitted]
    cases ceiling with
    | none => exact le_rfl
    | some _ => exact held_le _ (abs_nonneg _) hcuts.cut.le
  have hnothing : (s.allocation.capitalOf a.strategyId).reservedFor a.orderId = 0 → 0 = kept :=
    fun hzero => le_antisymm hnonneg (hzero ▸ hless)
  have hsame : (s.cutEntry o sign remaining).capitalOf a.strategyId =
      s.allocation.capitalOf a.strategyId := by
    rw [AllocationState.capitalOf, hcapital]
    rfl
  unfold PipelineState.reduceCapital at hreduced
  rw [hcapital, hid] at hreduced
  cases hget : s.allocation.strategyCapital.get? a.strategyId with
  | none =>
    rw [hget] at hreduced
    obtain rfl := pure_ok.mp hreduced
    refine ⟨.refl _, hpositions, ?_⟩
    have hzero : (s.allocation.capitalOf a.strategyId).reservedFor a.orderId = 0 := by
      rw [AllocationState.capitalOf, hget]
      rfl
    rw [hsame, hzero]
    exact hnothing hzero
  | some capital =>
    have hcap := capitalOf_of_get? hget
    rw [hget] at hreduced
    dsimp only at hreduced
    cases hheld : capital.reserved.get? a.orderId with
    | none =>
      rw [hheld] at hreduced
      obtain rfl := pure_ok.mp hreduced
      refine ⟨.refl _, hpositions, ?_⟩
      have hzero : (s.allocation.capitalOf a.strategyId).reservedFor a.orderId = 0 := by
        rw [hcap, StrategyCapital.reservedFor, hheld, Option.getD_none]
      rw [hsame, hzero]
      exact hnothing hzero
    | some heldBack =>
      rw [hheld] at hreduced
      dsimp only at hreduced
      obtain ⟨working, hworking, hreduced⟩ := bind_ok.mp hreduced
      obtain rfl := pure_ok.mp hreduced
      have hback : (s.allocation.capitalOf a.strategyId).reservedFor a.orderId = heldBack := by
        rw [hcap, StrategyCapital.reservedFor, hheld, Option.getD_some]
      have hposition : (s.cutEntry o sign remaining).positionOf a.strategyId o.assetId =
          s.allocation.positionOf a.strategyId o.assetId := by
        rw [AllocationState.positionOf, hpositions]
        rfl
      refine ⟨setCapital_kept _ _, hpositions, ?_⟩
      rw [capitalOf_setCapital, if_pos rfl, hposition, multiply_sign a.side hwas hsign,
        multiply_sign a.side hremaining hsign]
      have hstill : stillAdded heldBack (subtract (add (s.allocation.positionOf a.strategyId
          o.assetId) working) (a.side.signed o.remainingQuantity))
          (a.side.signed o.remainingQuantity) (a.side.signed remaining) addingExposure = kept := by
        rcases (hback ▸ hnonneg.trans hless : 0 ≤ heldBack).eq_or_lt with hzero | hpos
        · rw [← hzero, stillAdded_zero]
          exact hnothing (hback.trans hzero.symm)
        · cases ceiling with
          | none =>
            rw [hback] at hcommitted
            exact absurd hcommitted hpos.ne'
          | some ceiling =>
            exact (hcuts.strategy (hback ▸ hpos) working hworking).keeps hcuts.least hcuts.cut
              (hback.symm.trans hcommitted) hpos (addingExposure_signed hwasPos.le)
              (addingExposure_signed hcuts.least)
      rw [hstill]
      exact StrategyCapital.reservedFor_reduced _ hheld hnonneg (hback ▸ hless)

end

/-! ## What a run keeps -/

/-- **What the run keeps of the order**, still a request or in the book: while it is open
    it holds what it would, and its identifier is never used again. -/
structure AllocatedOrder.Followed (a : AllocatedOrder) (s : FollowedRun) : Prop where
  known : a.orderId ∈ s.routing.pipeline.allocation.history.map (·.orderId)
  recorded : s.routing.pipeline.allocation.strategyPositions ≠ none
  once : (s.routing.pending.map (·.orderId)).Nodup
  placed : ∀ o, s.routing.pipeline.orders.get? a.orderId = some o →
    a.orderId ∉ s.routing.pending.map (·.orderId)
  waiting : ∀ r ∈ s.routing.pending, r.orderId = a.orderId → r.side = a.side ∧
    a.Kept s.routing.pipeline.allocation s.added r.quantity 0
  working : ∀ o, s.routing.pipeline.orders.get? a.orderId = some o → o.isOpen = true →
    o.side = a.side ∧ a.Kept s.routing.pipeline.allocation s.added o.quantity o.filledQuantity

section
variable {a : AllocatedOrder} {s : RoutingState} {t : PipelineState} {added : Decimal}
  {pending : List OrderRequest} {timestamp : Instant} {orderId : String}

theorem AllocatedOrder.Followed.aside (h : a.Followed ⟨s, added⟩)
    (hpending : pending.Sublist s.pending)
    (haside : Aside a.orderId a.strategyId s.pipeline t) : a.Followed ⟨⟨t, pending⟩, added⟩ := by
  refine ⟨?_, haside.entry.recorded h.recorded, h.once.sublist (hpending.map _), ?_, ?_, ?_⟩
  · rw [haside.history]
    exact h.known
  · intro o ho hmem
    exact h.placed o (haside.order.symm.trans ho) ((hpending.map _).subset hmem)
  · intro r hr hid
    obtain ⟨hside, hkept⟩ := h.waiting r (hpending.subset hr) hid
    exact ⟨hside, hkept.congr haside.entry⟩
  · intro o ho hopen
    obtain ⟨hside, hkept⟩ := h.working o (haside.order.symm.trans ho) hopen
    exact ⟨hside, hkept.congr haside.entry⟩

/-- The order itself moved, and still open as it would hold, or ended. -/
theorem AllocatedOrder.Followed.own {added' : Decimal} {o o' : Order}
    (h : a.Followed ⟨s, added⟩) (ho : s.pipeline.orders.get? a.orderId = some o)
    (ho' : t.orders.get? a.orderId = some o')
    (hhistory : t.allocation.history = s.pipeline.allocation.history)
    (hrecorded : t.allocation.strategyPositions ≠ none)
    (hkept : o'.isOpen = true →
      o'.side = a.side ∧ a.Kept t.allocation added' o'.quantity o'.filledQuantity) :
    a.Followed ⟨⟨t, s.pending⟩, added'⟩ := by
  have hplaced := h.placed o ho
  refine ⟨?_, hrecorded, h.once, fun _ _ => hplaced, ?_, ?_⟩
  · change a.orderId ∈ t.allocation.history.map (·.orderId)
    rw [hhistory]
    exact h.known
  · intro r hr hid
    exact absurd (hid ▸ List.mem_map_of_mem hr) hplaced
  · intro o₁ ho₁ hopen
    obtain rfl := Option.some.inj (ho'.symm.trans ho₁)
    exact hkept hopen

theorem AllocatedOrder.Followed.ended {ending : OrderEnding} (h : a.Followed ⟨s, added⟩)
    (hended : s.pipeline.ended orderId ending timestamp = .ok t) :
    a.Followed ⟨⟨t, s.pending⟩, added⟩ := by
  by_cases hid : orderId = a.orderId
  · subst hid
    obtain ⟨⟨o, ho, -, ho'⟩, -, hbeside, -⟩ := PipelineState.ended_spec hended
    refine h.own ho ho' hbeside.history ?_ fun hopen => ?_
    · obtain ⟨_, -, -, rfl⟩ := PipelineState.ended_ok hended
      rw [(PipelineState.retireDroppedRequest_entries _ _ _).2.2.2.2.1]
      exact h.recorded
    · simp [Order.isOpen, OrderEnding.status_isTerminal] at hopen
  · exact h.aside (.refl _) (PipelineState.ended_aside (Ne.symm hid) hended)

theorem AllocatedOrder.Followed.cancelWorking {c : PipelineConfig} (h : a.Followed ⟨s, added⟩)
    (hcancel : s.pipeline.cancelWorking c assetId timestamp = .ok t) :
    a.Followed ⟨⟨t, s.pending⟩, added⟩ := by
  simp only [PipelineState.cancelWorking, bind_ok, require_ok, exists_const] at hcancel
  refine foldlM_invariant (fun u : PipelineState => a.Followed ⟨⟨u, s.pending⟩, added⟩)
    hcancel.2 h ?_
  intro orderId _ u v hended hu
  exact hu.ended hended

theorem AllocatedOrder.Followed.batch {b : AllocationInput} (h : a.Followed ⟨s, added⟩)
    (hnamed : (PipelineCall.allocate b).NamedAnew s) :
    a.Followed ⟨⟨s.pipeline.withAllocation (allocate s.pipeline.allocation b).1,
      (allocate s.pipeline.allocation b).2⟩, added⟩ := by
  obtain ⟨hinjective, hnew⟩ := hnamed
  have hrequests : ((allocate s.pipeline.allocation b).2.map (·.orderId)).Nodup ∧
      ∀ r ∈ (allocate s.pipeline.allocation b).2, r.orderId ≠ a.orderId := by
    rcases allocate_entries s.pipeline.allocation b with ⟨hnone, -⟩ | ⟨hsome, -⟩
    · rw [hnone]
      exact ⟨List.nodup_nil, fun r hr => absurd hr List.not_mem_nil⟩
    · obtain ⟨hnodup, hids⟩ := batchOrders_ids s.pipeline.allocation hinjective
      rw [hsome]
      refine ⟨by rwa [List.map_map], fun r hr hid => ?_⟩
      obtain ⟨e, he, rfl⟩ := List.mem_map.mp hr
      obtain ⟨n, hn⟩ := hids e he
      exact hnew n (hn ▸ hid ▸ h.known)
  have hhistory : ∃ more, (allocate s.pipeline.allocation b).1.history =
      s.pipeline.allocation.history ++ more := by
    rcases allocate_entries s.pipeline.allocation b with ⟨-, hrefused⟩ | ⟨-, hplaced⟩
    · exact ⟨[], hrefused.history.trans (List.append_nil _).symm⟩
    · exact ⟨_, hplaced.history⟩
  have hsame : EntrySame a.orderId a.strategyId s.pipeline.allocation _ :=
    allocate_same hrequests.2
  have hnone : a.orderId ∉ (allocate s.pipeline.allocation b).2.map (·.orderId) := by
    rw [List.mem_map]
    rintro ⟨r, hr, hid⟩
    exact hrequests.2 r hr hid
  obtain ⟨more, hmore⟩ := hhistory
  refine ⟨?_, hsame.recorded h.recorded, hrequests.1, fun _ _ => hnone, ?_, ?_⟩
  · change a.orderId ∈ List.map _ (allocate s.pipeline.allocation b).1.history
    rw [hmore, List.map_append]
    exact List.mem_append_left _ h.known
  · intro r hr hid
    exact absurd hid (hrequests.2 r hr)
  · intro o ho hopen
    obtain ⟨hside, hkept⟩ := h.working o ho hopen
    exact ⟨hside, hkept.congr hsame⟩

variable {request : OrderRequest}

theorem AllocatedOrder.Followed.drop (h : a.Followed ⟨s, added⟩)
    (hpending : s.pending = request :: pending) :
    a.Followed ⟨⟨s.pipeline.retireDroppedRequest request.orderId timestamp, pending⟩, added⟩ := by
  have honce := h.once
  have hnone := h.placed
  rw [hpending, List.map_cons] at honce hnone
  obtain ⟨hnotIn, hnodup⟩ := List.nodup_cons.mp honce
  by_cases hid : request.orderId = a.orderId
  · rw [hid] at hnotIn hnone ⊢
    obtain ⟨-, -, -, hhistory, hpositions, -⟩ :=
      PipelineState.retireDroppedRequest_entries s.pipeline a.orderId timestamp
    refine ⟨?_, ?_, hnodup, fun _ _ => hnotIn, ?_, ?_⟩
    · change a.orderId ∈ List.map _ (s.pipeline.retireDroppedRequest a.orderId
        timestamp).allocation.history
      rw [hhistory]
      exact h.known
    · change (s.pipeline.retireDroppedRequest a.orderId
        timestamp).allocation.strategyPositions ≠ none
      rw [hpositions]
      exact h.recorded
    · intro r hr hr'
      exact absurd (hr' ▸ List.mem_map_of_mem hr) hnotIn
    · intro o ho _
      exact absurd (List.mem_cons_self ..) (hnone o ho)
  · refine h.aside ?_ (PipelineState.retireDroppedRequest_aside (Ne.symm hid))
    rw [hpending]
    exact List.sublist_cons_self _ _

theorem AllocatedOrder.Followed.place {expireAt : Option Instant} (h : a.Followed ⟨s, added⟩)
    (hpending : s.pending = request :: pending)
    (hplace : s.pipeline.submitAndAccept request expireAt timestamp = .ok t) :
    a.Followed ⟨⟨t, pending⟩, added⟩ := by
  obtain ⟨hnew, o, hown, ho, rfl⟩ := PipelineState.submitAndAccept_ok hplace
  have honce := h.once
  have hwaiting := h.waiting
  rw [hpending] at honce hwaiting
  rw [List.map_cons] at honce
  obtain ⟨hnotIn, hnodup⟩ := List.nodup_cons.mp honce
  by_cases hid : request.orderId = a.orderId
  · rw [hid] at hnotIn
    refine ⟨h.known, h.recorded, hnodup, fun _ _ => hnotIn, ?_, ?_⟩
    · intro r hr hr'
      exact absurd (hr' ▸ List.mem_map_of_mem hr) hnotIn
    · intro o₁ ho₁ _
      have hput : ((s.pipeline.orders.put (request.toOrder expireAt)).put o).get? a.orderId =
          some o := by
        rw [← hid, ← hown]
        exact Register.get?_put_self _ _
      obtain rfl := Option.some.inj (hput.symm.trans ho₁)
      obtain ⟨hside, hkept⟩ := hwaiting request (List.mem_cons_self ..) hid
      rw [ho]
      exact ⟨hside, hkept⟩
  · have hother : Aside a.orderId a.strategyId s.pipeline { s.pipeline with
        orders := (s.pipeline.orders.put (request.toOrder expireAt)).put o } := by
      refine ⟨?_, .refl _, rfl⟩
      have hne : a.orderId ≠ o.orderId := hown ▸ Ne.symm hid
      exact (Register.get?_put_of_ne _ hne).trans (Register.get?_put_of_ne _ (Ne.symm hid))
    refine h.aside ?_ hother
    rw [hpending]
    exact List.sublist_cons_self _ _

end

section
variable {c : PipelineConfig} {a : AllocatedOrder} {s : RoutingState} {t : PipelineState}
  {added : Decimal} {timestamp : Instant}

theorem AllocatedOrder.Followed.filled {rates : FxRates} {report : ExecutionReport} {o : Order}
    (h : a.Followed ⟨s, added⟩) (ho : s.pipeline.orders.get? a.orderId = some o)
    (hfills : a.FillsAt c s rates report)
    (hreport : s.pipeline.applyReport c rates o { report with orderId := a.orderId } = .ok t) :
    a.Followed ⟨⟨t, s.pending⟩, added + addingExposure
      (s.pipeline.allocation.positionOf a.strategyId report.assetId)
      (a.side.signed report.fillQuantity)⟩ := by
  have hid : o.orderId = a.orderId := Register.key_of_get? ho
  have hnamed : ({ report with orderId := a.orderId } : ExecutionReport).orderId = o.orderId :=
    hid.symm
  have hbeside := PipelineState.applyReport_beside hnamed hreport
  obtain ⟨filled, booked, notional, recorded, hfilled, hbooked, hnotional, hrecorded, rfl⟩ :=
    PipelineState.applyReport_ok.mp hreport
  obtain rfl := ok_inj.mp (hfills.value.symm.trans hnotional)
  obtain ⟨-, f, portfolio, -, -, -, rfl⟩ := PipelineState.reportToPortfolio_ok hbooked
  -- what the report makes of the order
  obtain ⟨o', hput, hopened, hside, hquantity, hunits, hallocation, hsum⟩ :
      ∃ o', filled.orders.get? a.orderId = some o' ∧
        (o'.isOpen = true → o.isOpen = true) ∧ o'.side = o.side ∧ o'.quantity = o.quantity ∧
        0 ≤ report.fillQuantity ∧ filled.allocation = s.pipeline.allocation ∧
        o'.filledQuantity = o.filledQuantity + report.fillQuantity := by
    rcases PipelineState.reportToOms_ok hfilled with ⟨rfl, hfull, hpartial⟩ |
      ⟨o₁, o', ho₁, hmove, rfl⟩
    · have hzero : report.fillQuantity = 0 :=
        (hfills.trades.resolve_left hfull).resolve_left hpartial
      exact ⟨o, ho, id, rfl, rfl, hzero.ge, rfl, by simp [hzero]⟩
    · rw [hid] at ho₁
      obtain rfl := Option.some.inj (ho.symm.trans ho₁)
      have hmoved : o.isOpen = true ∧ 0 < report.fillQuantity ∧ ∃ status,
          o' = o.filledBy status report.fillQuantity report.fillPrice report.timestamp := by
        rcases hmove with ⟨-, hmove⟩ | ⟨-, hmove⟩
        · obtain ⟨status, hnext, hpos, -, ho'⟩ := AlphaLab.fill_ok.mp hmove
          exact ⟨isOpen_of_next hnext, hpos, status, ho'⟩
        · obtain ⟨status, hnext, hpos, -, ho'⟩ := AlphaLab.partialFill_ok.mp hmove
          exact ⟨isOpen_of_next hnext, hpos, status, ho'⟩
      obtain ⟨hopen, hpos, status, rfl⟩ := hmoved
      refine ⟨o.filledBy status report.fillQuantity report.fillPrice report.timestamp, ?_,
        fun _ => hopen, rfl, rfl, hpos.le, rfl, rfl⟩
      rw [← hid]
      exact Register.get?_put_self _ (o.filledBy status _ _ _)
  have hput' : (PipelineState.releaseIfTerminal ({ filled with portfolio := portfolio }.withAllocation
      (recorded.applyExecution a.orderId (|a.unitValue| * report.fillQuantity) report.timestamp))
      o.orderId report.timestamp).orders.get? a.orderId = some o' := by
    rw [PipelineState.releaseIfTerminal_orders]
    exact hput
  have hrecord : s.pipeline.allocation.recordFill a.orderId report.assetId
      (o.side.signed report.fillQuantity) (some (|a.unitValue| * report.fillQuantity)) =
        .ok recorded := by
    rw [← hallocation]
    exact hrecorded
  have hpositions : recorded.strategyPositions ≠ none := recordFill_recorded h.recorded hrecord
  refine h.own ho hput' hbeside.history ?_ fun hopen => ?_
  · rcases PipelineState.releaseIfTerminal_cases ({ filled with portfolio :=
        portfolio }.withAllocation (recorded.applyExecution a.orderId
        (|a.unitValue| * report.fillQuantity) report.timestamp)) o.orderId report.timestamp with
      hcase | hcase
    · rw [hcase]
      exact hpositions
    · rw [hcase, (PipelineState.retireDroppedRequest_entries _ _ _).2.2.2.2.1]
      exact hpositions
  · obtain ⟨hside', hkept⟩ := h.working o ho (hopened hopen)
    have hstill : PipelineState.releaseIfTerminal ({ filled with portfolio :=
        portfolio }.withAllocation (recorded.applyExecution a.orderId
        (|a.unitValue| * report.fillQuantity) report.timestamp)) o.orderId report.timestamp = _ :=
      PipelineState.releaseIfTerminal_of_open (hid ▸ hput) hopen
    rw [hside'] at hrecord
    refine ⟨hside.trans hside', ?_⟩
    rw [hstill, hquantity, hsum]
    exact hkept.fill h.recorded hunits hfills.unit hfills.deployed hfills.left hrecord _

/-- **The order cut in place**, alike. -/
theorem AllocatedOrder.Followed.reduced {remaining : Decimal} {o : Order}
    (h : a.Followed ⟨s, added⟩) (ho : s.pipeline.orders.get? a.orderId = some o)
    (hcuts : a.CutsAlike s.pipeline added o remaining)
    (hreduce : s.pipeline.reduceInPlace a.orderId remaining timestamp = .ok t) :
    a.Followed ⟨⟨t, s.pending⟩, added⟩ := by
  have hid : o.orderId = a.orderId := Register.key_of_get? ho
  simp only [PipelineState.reduceInPlace, bind_ok, mapError_ok, update_ok, OrderBook.find,
    orRefuse_ok] at hreduce
  obtain ⟨o₀, ho₀, _, ⟨o₁, o', ho₁, hreplace, rfl⟩, hreduce⟩ := hreduce
  obtain rfl := Option.some.inj (ho.symm.trans ho₀)
  obtain rfl := Option.some.inj (ho.symm.trans ho₁)
  obtain ⟨status, hnext, hmore, ho'⟩ := replace_ok.mp hreplace
  have hopen : o.isOpen = true := isOpen_of_next hnext
  obtain ⟨hside, hkept⟩ := h.working o ho hopen
  obtain ⟨q, hcontributions, hq, hbuy⟩ := hkept.contributes
  rw [AllocationState.contributionsFor, hcontributions, Option.getD_some] at hreduce
  dsimp only at hreduce
  have hsign : (if 0 < q then (1 : Decimal) else -1) = a.side.signed 1 := by
    cases hcase : a.side with
    | buy => rw [if_pos (hbuy.mpr hcase)]; rfl
    | sell => rw [if_neg (fun hpos => by simp [hcase] at hbuy; exact hbuy.not_gt hpos)]; rfl
  generalize (if 0 < q then (1 : Decimal) else -1) = sign at hreduce hsign
  obtain ⟨reduced, hreduced, hreduce⟩ := bind_ok.mp hreduce
  obtain rfl := pure_ok.mp hreduce
  have htotal : add o.filledQuantity remaining = o.filledQuantity + remaining :=
    hcuts.quantities.2.2
  rw [htotal] at hmore ho' ⊢
  have hpos : 0 < o.filledQuantity + remaining := hkept.filledNonneg.trans_lt hmore
  have hunits : o.remainingQuantity = o.quantity - o.filledQuantity := rfl
  have hreserved := hcuts.reserved hid hsign (by
    rw [hkept.holds.reserved, hkept.digits.reserves_eq hkept.quantityPos.le hkept.filledNonneg,
      hunits])
  obtain ⟨hentries, hpositions, hcommitted⟩ := hcuts.committed hid hsign
    (s.pipeline.allocation.budget.strategyCeiling a.strategyId) (by
      rw [hkept.holds.committed, hkept.digits.commits_eq hkept.quantityPos.le hkept.addedNonneg,
        hunits]
      ring_nf) hreduced
  obtain ⟨-, -, hbudget, hhistory⟩ := cutEntry_kept s.pipeline o sign remaining
  have hput : (s.pipeline.orders.put o').get? a.orderId = some o' := by
    have hid' : o'.orderId = a.orderId := by rw [ho', ← hid]
    rw [← hid']
    exact Register.get?_put_self _ _
  refine h.own ho hput (hentries.history.trans hhistory) ?_ fun _ => ⟨?_, ?_⟩
  · change reduced.strategyPositions ≠ none
    rw [hpositions]
    exact h.recorded
  · rw [ho']
    exact hside
  · have hquantity : o'.quantity = o.filledQuantity + remaining := by rw [ho']
    have hfilled : o'.filledQuantity = o.filledQuantity := by rw [ho']
    rw [hquantity, hfilled]
    refine ⟨hpos, hkept.filledNonneg, hkept.addedNonneg, hcuts.digits, ?_, ?_, ?_⟩
    · refine ⟨a.side.signed (o.filledQuantity + remaining), ?_, ?_, ?_⟩
      · change (s.pipeline.allocation.contributions.set a.orderId _).get? a.orderId = _
        rw [Dict.get?_set_self, multiply_sign a.side hcuts.quantities.2.2 hsign]
      · rw [← abs_pos, abs_side_signed]
        exact abs_pos.mpr hpos.ne'
      · cases a.side with
        | buy => simpa [Side.signed] using hpos
        | sell => exact iff_of_false (not_lt.mpr (neg_nonpos.mpr hpos.le)) (by decide)
    · change reduced.reservedNotional a.orderId = _
      rw [AllocationState.reservedNotional, hentries.reservations]
      refine hreserved.trans ?_
      rw [hcuts.digits.reserves_eq hpos.le hkept.filledNonneg, add_sub_cancel_left]
    · change (reduced.capitalOf a.strategyId).reservedFor a.orderId =
        (reduced.budget.strategyCeiling a.strategyId).elim 0 _
      rw [hcommitted, hentries.budget, hbudget, hcuts.digits.commits_eq hpos.le hkept.addedNonneg]
      ring_nf

theorem AllocatedOrder.Followed.triggered {orderId : String} {o : Order}
    (h : a.Followed ⟨s, added⟩) (ho : s.pipeline.orders.get? orderId = some o) :
    a.Followed ⟨⟨{ s.pipeline with
      orders := s.pipeline.orders.put { o with triggeredAt := some timestamp } }, s.pending⟩,
      added⟩ := by
  have hown : o.orderId = orderId := Register.key_of_get? ho
  by_cases hid : orderId = a.orderId
  · subst hid
    have hput : (s.pipeline.orders.put { o with triggeredAt := some timestamp }).get?
        a.orderId = some { o with triggeredAt := some timestamp } := by
      rw [← hown]
      exact Register.get?_put_self _ _
    exact h.own ho hput rfl h.recorded fun hopen => h.working o ho hopen
  · refine h.aside (.refl _) (PipelineState.putOrder_aside (Ne.symm hid) ho ?_)
    rfl

theorem AllocatedOrder.Followed.split {split : Split} (h : a.Followed ⟨s, added⟩)
    (hsplit : s.pipeline.applySplit c split timestamp = .ok t) :
    a.Followed ⟨⟨t, s.pending⟩, added⟩ := by
  simp only [PipelineState.applySplit, bind_ok] at hsplit
  obtain ⟨current, hcurrent, hsplit⟩ := hsplit
  have hcancelled := h.cancelWorking hcurrent
  have haside : ∀ portfolio prices, a.Followed ⟨⟨{ current with
      portfolio := portfolio
      allocation := current.allocation.applySplit split.assetId split.ratio
      marketPrices := prices }, s.pending⟩, added⟩ := fun _ _ =>
    hcancelled.aside (.refl _) ⟨rfl, applySplit_same _ _, (applySplit_kept _ _).history⟩
  split_ifs at hsplit <;> simp only [bind_ok, pure_ok] at hsplit <;>
    obtain ⟨portfolio, -, rfl⟩ := hsplit
  · exact haside _ _
  · exact haside _ _

theorem AllocatedOrder.Followed.exchange {ctx : ExchangeContext} {request : ExchangeRequest}
    (h : a.Followed ⟨s, added⟩) (hexchange : s.pipeline.applyExchange c ctx request = .ok t) :
    a.Followed ⟨⟨t, s.pending⟩, added⟩ := by
  simp only [PipelineState.applyExchange, bind_ok] at hexchange
  obtain ⟨current, hcurrent, hexchange⟩ := hexchange
  have hcancelled := h.cancelWorking hcurrent
  split at hexchange
  · obtain rfl := pure_ok.mp hexchange
    exact hcancelled
  · simp only [bind_ok, mapError_ok, pure_ok] at hexchange
    obtain ⟨taken, -, plan, -, parts, -, portfolio, -, allocation, hallocation, rfl⟩ := hexchange
    exact hcancelled.aside (.refl _)
      ⟨rfl, exchangeShares_same a.named hallocation, (exchangeShares_kept hallocation).history⟩

theorem followedStep_kept {s s' : FollowedRun} {call : PipelineCall} (h : a.Followed s)
    (hmeets : call.KeepsShare c a s) (hstep : followedStep c a s call = .ok s') :
    a.Followed s' := by
  obtain ⟨s, added⟩ := s
  obtain ⟨routing, hrouting, hstep⟩ := bind_ok.mp hstep
  obtain rfl := pure_ok.mp hstep
  cases pipelineStep_cases hrouting with
  | allocate => simpa [PipelineCall.added] using h.batch hmeets
  | drop hpending => simpa [PipelineCall.added] using h.drop hpending
  | place hpending hplaced => simpa [PipelineCall.added] using h.place hpending hplaced
  | @fill orderId _ _ o filled ho hfilled =>
    by_cases hid : orderId = a.orderId
    · subst hid
      simpa [PipelineCall.added] using h.filled ho (hmeets rfl) hfilled
    · have hown : o.orderId = orderId := Register.key_of_get? ho
      have haside : Aside a.orderId a.strategyId s.pipeline filled :=
        PipelineState.applyReport_aside (hown ▸ Ne.symm hid) hown.symm hfilled
      simpa [PipelineCall.added, hid] using h.aside (.refl _) haside
  | repeated | venueReport => exact hmeets.elim
  | finish hended => simpa [PipelineCall.added] using h.ended hended
  | outcome hended => simpa [PipelineCall.added] using h.ended hended
  | triggered => simpa [PipelineCall.added] using h
  | trigger ho => simpa [PipelineCall.added] using h.triggered ho
  | @reduce orderId _ _ _ hreduced =>
    by_cases hid : orderId = a.orderId
    · subst hid
      obtain ⟨o, _, _, _, _, ho, -⟩ := reduceInPlace_ok hreduced
      simpa [PipelineCall.added] using h.reduced ho (hmeets rfl o ho) hreduced
    · simpa [PipelineCall.added] using
        h.aside (.refl _) (PipelineState.reduceInPlace_aside (Ne.symm hid) hreduced)
  | replacementRefused =>
    change a.Followed ⟨_, added + 0⟩
    rw [add_zero]
    exact h.aside (.refl _) ⟨rfl, ⟨rfl, rfl, rfl, rfl, id⟩, rfl⟩
  | split hafter => simpa [PipelineCall.added] using h.split hafter
  | exchange hafter => simpa [PipelineCall.added] using h.exchange hafter
  | book =>
    change a.Followed ⟨_, added + 0⟩
    rw [add_zero]
    exact h.aside (.refl _) ⟨rfl, .refl _, rfl⟩

end

/-! ## An order cut in place -/

/-- **An order as its batch leaves it**: a request still to be placed, named anew, for
    which the ledgers hold what an allocation of its quantity holds. -/
structure AllocatedOrder.Allocated (a : AllocatedOrder) (s : RoutingState) (r : OrderRequest) :
    Prop where
  request : r ∈ s.pending
  named : r.orderId = a.orderId
  side : r.side = a.side
  once : (s.pending.map (·.orderId)).Nodup
  known : a.orderId ∈ s.pipeline.allocation.history.map (·.orderId)
  unplaced : s.pipeline.orders.get? a.orderId = none
  recorded : s.pipeline.allocation.strategyPositions ≠ none
  kept : a.Kept s.pipeline.allocation 0 r.quantity 0

theorem AllocatedOrder.Allocated.followed {a : AllocatedOrder} {s : RoutingState}
    {r : OrderRequest} (h : a.Allocated s r) : a.Followed ⟨s, 0⟩ := by
  refine ⟨h.known, h.recorded, h.once, ?_, ?_, ?_⟩
  · intro o ho
    exact absurd (h.unplaced.symm.trans ho) (by simp)
  · intro r' hr' hid
    have hsame : r' = r := List.inj_on_of_nodup_map h.once hr' h.request (hid.trans h.named.symm)
    rw [hsame]
    exact ⟨h.side, h.kept⟩
  · intro o ho
    exact absurd (h.unplaced.symm.trans ho) (by simp)

/-- **An order cut in place holds what the smaller order would have held**: in a simulated
    run whose fills are at the order's value and whose cuts of it are alike, whatever
    else the run places, fills, cuts or cancels, an order of one strategy that is open
    holds for the account and for the strategy what an allocation of its quantity would
    hold after its fills.  Where nothing stood against it when it was allocated that is
    the value of all that remains of it, whichever orders work against it. -/
theorem cut_order_holds_smaller (c : PipelineConfig) {a : AllocatedOrder} {s₁ : RoutingState}
    {r : OrderRequest} (hallocated : a.Allocated s₁ r) {s : FollowedRun}
    (hrun : Runs (followedStep c a) (fun s call => call.KeepsShare c a s) ⟨s₁, 0⟩ s)
    {o : Order} (ho : s.routing.pipeline.orders.get? a.orderId = some o)
    (hopen : o.isOpen = true) :
    a.HoldsAs s.routing.pipeline.allocation s.added o.quantity o.filledQuantity ∧
      (a.unreserved = 0 → s.routing.pipeline.allocation.reservedNotional a.orderId =
        |a.unitValue| * max 0 o.remainingQuantity) := by
  have hfollowed : a.Followed s :=
    hrun.invariant a.Followed hallocated.followed fun s call s' hs hmeets hstep =>
      followedStep_kept hs hmeets hstep
  obtain ⟨-, hkept⟩ := hfollowed.working o ho hopen
  refine ⟨hkept.holds, fun hnone => ?_⟩
  rw [hkept.holds.reserved, hkept.digits.reserves_eq hkept.quantityPos.le hkept.filledNonneg,
    hnone, sub_zero]
  rfl

def tenUnits : AllocationInput :=
  { fourUnits with
    intents := [{ strategyId := "A", instrument := "X", target := 10 }]
    positions := some Dict.empty }

def fourOffered : AllocationInput :=
  { fourUnits with
    intents := [{ strategyId := "B", instrument := "X", target := -4 }]
    positions := some (Dict.empty.set "X" 10)
    newId := fun n => "S" ++ orderName n }

def tenBought : AllocatedOrder where
  orderId := "O"
  strategyId := "A"
  side := .buy
  held := some 0
  own := 0
  unitValue := 10
  named := by decide

def fiveFilled : ExecutionReport :=
  { firstUnit with fillPrice := 10, fillQuantity := 5, status := .fullFill }

/-- **Cut against a sale, the order keeps nothing**: a purchase of ten that reserves a
    hundred is cut to five while another strategy's sale of four works against it, and
    keeps nothing of the fifty that an order of five reserves; the sale cancelled, its
    five units are bought with nothing reserved. -/
theorem cut_order_keeps_nothing :
    ∃ s t, [.allocate tenUnits, .place none 0, .allocate fourOffered, .place none 0,
        .reduce "O" 5 1].foldlM (pipelineStep dollarPipeline) thousandRun = .ok s ∧
      ((∃ o ∈ s.pipeline.orders.values, o.orderId = "O" ∧ o.isOpen = true ∧ o.quantity = 5 ∧
          o.filledQuantity = 0) ∧
        s.pipeline.allocation.reservedNotional "O" = 0 ∧ tenBought.reserves 5 = 50) ∧
      [.finish "SO" .cancelled 2, .fill "O" noRates fiveFilled].foldlM
        (pipelineStep dollarPipeline) s = .ok t ∧
      (t.pipeline.portfolio.positions.get? "X").map (·.quantity) = some 5 := by
  obtain ⟨s, hs, hkept, hnext⟩ := exists_ok_of (x :=
    [.allocate tenUnits, .place none 0, .allocate fourOffered, .place none 0,
      .reduce "O" 5 1].foldlM (pipelineStep dollarPipeline) thousandRun)
    (fun s => ((∃ o ∈ s.pipeline.orders.values, o.orderId = "O" ∧ o.isOpen = true ∧
        o.quantity = 5 ∧ o.filledQuantity = 0) ∧
        s.pipeline.allocation.reservedNotional "O" = 0 ∧ tenBought.reserves 5 = 50) ∧
      decide (([.finish "SO" .cancelled 2, .fill "O" noRates fiveFilled].foldlM
        (pipelineStep dollarPipeline) s).toOption.any (fun t =>
          decide ((t.pipeline.portfolio.positions.get? "X").map (·.quantity) = some 5)) = true) =
        true)
    (by decide +kernel)
  obtain ⟨t, ht, hposition⟩ := exists_ok_of
    (fun t : RoutingState =>
      (t.pipeline.portfolio.positions.get? "X").map (·.quantity) = some 5)
    (of_decide_eq_true hnext)
  exact ⟨s, t, hs, hkept, ht, hposition⟩

def tenRequest : OrderRequest :=
  orderOf tenUnits [⟨"A", "X", marketTerms, 10⟩] 0 ("X", marketTerms) 10

def tenPlaced : Order := { tenRequest.toOrder none with status := .accepted }

/-- Cut with nothing against it, the purchase of ten holds what five would. -/
theorem cut_order_holds_five :
    let placed := stepped (stepped thousandRun (.allocate tenUnits)) (.place none 0)
    let cut := stepped placed (.reduce "O" 5 1)
    tenBought.HoldsAs cut.pipeline.allocation 0 5 0 ∧
      cut.pipeline.allocation.reservedNotional "O" = 50 := by
  intro placed cut
  have hkept : tenBought.Kept (stepped thousandRun (.allocate tenUnits)).pipeline.allocation 0
      tenRequest.quantity 0 :=
    ⟨by decide +kernel, le_rfl, le_rfl, ⟨by decide +kernel, by decide +kernel⟩,
      ⟨10, by decide +kernel, by norm_num, iff_of_true (by norm_num) rfl⟩,
      ⟨by decide +kernel, by decide +kernel⟩⟩
  have hallocated : tenBought.Allocated (stepped thousandRun (.allocate tenUnits)) tenRequest :=
    ⟨by decide +kernel, rfl, rfl, by decide +kernel, by decide +kernel, by decide +kernel,
      by decide +kernel, hkept⟩
  have hplaced : placed.pipeline.orders.get? "O" = some tenPlaced := by decide +kernel
  have hcuts : tenBought.CutsAlike placed.pipeline (0 + 0) tenPlaced 5 :=
    ⟨by norm_num, by decide +kernel, by decide +kernel, ⟨by decide +kernel, by decide +kernel⟩,
      fun _ => ⟨0, by decide +kernel, by decide +kernel, by decide +kernel, by decide +kernel,
        by decide +kernel⟩, fun h => absurd h (by decide +kernel)⟩
  have hplacedStep : followedStep dollarPipeline tenBought
      ⟨stepped thousandRun (.allocate tenUnits), 0⟩ (.place none 0) = .ok ⟨placed, 0 + 0⟩ :=
    bind_ok.mpr ⟨placed, ok_getD (by decide +kernel) _, rfl⟩
  have hcutStep : followedStep dollarPipeline tenBought ⟨placed, 0 + 0⟩ (.reduce "O" 5 1) =
      .ok ⟨cut, 0 + 0 + 0⟩ :=
    bind_ok.mpr ⟨cut, ok_getD (by decide +kernel) _, rfl⟩
  have hmeets : (PipelineCall.reduce "O" 5 1).KeepsShare dollarPipeline tenBought
      ⟨placed, 0 + 0⟩ := by
    intro _ o ho
    obtain rfl := Option.some.inj (hplaced.symm.trans ho)
    exact hcuts
  have hrun : Runs (followedStep dollarPipeline tenBought)
      (fun s call => call.KeepsShare dollarPipeline tenBought s)
      ⟨stepped thousandRun (.allocate tenUnits), 0⟩ ⟨cut, 0 + 0 + 0⟩ :=
    (Runs.refl.step trivial hplacedStep).step hmeets hcutStep
  obtain ⟨o, ho, hopen, hquantity, hfilled⟩ : ∃ o, cut.pipeline.orders.get? "O" = some o ∧
      o.isOpen = true ∧ o.quantity = 5 ∧ o.filledQuantity = 0 :=
    exists_some_of (fun o : Order => o.isOpen = true ∧ o.quantity = 5 ∧ o.filledQuantity = 0)
      (by decide +kernel)
  obtain ⟨hholds, hall⟩ := cut_order_holds_smaller dollarPipeline hallocated hrun ho hopen
  rw [hquantity, hfilled] at hholds
  refine ⟨by simpa using hholds, (hall (by decide +kernel)).trans ?_⟩
  rw [Order.remainingQuantity, hquantity, hfilled]
  decide +kernel

end AlphaLab
