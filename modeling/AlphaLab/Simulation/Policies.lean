/-
  Fill policies: how a venue answers one order at one event
  (`execution/policy.py`, and `_decide_fill`, `_within_queue` and `_kills` of
  `runtime/execution_pipeline.py`).

  * a `FillPolicy` decides from what the event showed: `immediateFill`,
    `staticFill`, `liquidityCappedFill`;
  * `decideFill` is what the pipeline makes of the decision in whole units,
    `withinQueue` what a queue leaves of it.
-/
import AlphaLab.Runtime.Pipeline
import AlphaLab.Simulation.Events

namespace AlphaLab

structure LiquidityContext where
  assetId : String
  side : Side
  requestedQuantity : Decimal
  price : Decimal
  availableQuantity : Option Decimal
  timestamp : Instant

/-- `FillDecision`; no quantity is whatever remains of the order. -/
structure FillDecision where
  status : FillStatus
  quantity : Option Decimal := none

abbrev FillPolicy := LiquidityContext → FillDecision

def immediateFill : FillPolicy := fun context => ⟨.fullFill, some context.requestedQuantity⟩

def staticFill (status : FillStatus) (quantity : Option Decimal) : FillPolicy := fun context =>
  ⟨status, some (quantity.getD context.requestedQuantity)⟩

def liquidityCappedFill (participationRate : Decimal) : FillPolicy := fun context =>
  match context.availableQuantity with
  | none => ⟨.fullFill, some context.requestedQuantity⟩
  | some available =>
    let cap := multiply available participationRate
    if cap ≤ 0 then ⟨.noFill, none⟩
    else if context.requestedQuantity ≤ cap then ⟨.fullFill, some context.requestedQuantity⟩
    else ⟨.partialFill, some cap⟩

/-! ## Decisions -/

def FillStatus.isFill : FillStatus → Bool
  | fullFill | partialFill => true
  | noFill | rejected | expired => false

def FillDecision.fills (decision : FillDecision) (order : Order) : Decimal :=
  decision.quantity.getD order.remainingQuantity

def Order.liquidityContext (order : Order) (event : MarketEvent) (price : Decimal) :
    LiquidityContext where
  assetId := order.assetId
  side := order.side
  requestedQuantity := order.remainingQuantity
  price := price
  availableQuantity := event.availableQuantity order.side
  timestamp := event.timestamp

/-- `_decide_fill`: the policy's decision, a partial one in whole units if the run trades
    them. -/
def decideFill (policy : FillPolicy) (order : Order) (event : MarketEvent) (price : Decimal)
    (wholeUnits : Bool) : FillDecision :=
  let decision := policy (order.liquidityContext event price)
  match decision.quantity with
  | none => decision
  | some quantity =>
    if ¬ wholeUnits ∨ decision.status ≠ .partialFill then decision
    else if roundDown quantity ≤ 0 then ⟨.noFill, none⟩
    else ⟨.partialFill, some (roundDown quantity)⟩

/-- `_within_queue`: the decision held to what a queue allows. -/
def withinQueue (decision : FillDecision) (order : Order) (cap : Decimal) (wholeUnits : Bool) :
    FillDecision :=
  if ¬ decision.status.isFill then decision
  else if decision.fills order ≤ cap then decision
  else
    let allowed := if wholeUnits then roundDown cap else cap
    if allowed ≤ 0 then ⟨.noFill, none⟩ else ⟨.partialFill, some allowed⟩

/-- `_kills`: whether a fill-or-kill order is killed rather than filled as decided. -/
def kills (order : Order) (decision : FillDecision) : Bool :=
  order.timeInForce = .fok &&
    (!decision.status.isFill || decision.fills order < order.remainingQuantity)

theorem roundDown_le {x : Decimal} (h : 0 < roundDown x) : roundDown x ≤ x := by
  unfold roundDown at h ⊢
  split_ifs at h ⊢ with hx
  · exact Int.floor_le x
  · have hneg : (⌈x⌉ : ℚ) ≤ 0 := by
      have hceil : ⌈x⌉ ≤ 0 := Int.ceil_le.mpr (by simpa using (not_le.mp hx).le)
      exact_mod_cast hceil
    linarith

/-- **A capped policy fills no more than its share of what the event showed.** -/
theorem decideFill_le {rate price shown : Decimal} {order : Order} {event : MarketEvent}
    {wholeUnits : Bool} (hshown : event.availableQuantity order.side = some shown)
    (hfill : (decideFill (liquidityCappedFill rate) order event price wholeUnits).status.isFill) :
    (decideFill (liquidityCappedFill rate) order event price wholeUnits).fills order ≤
      multiply shown rate := by
  have hcontext : (order.liquidityContext event price).availableQuantity = some shown := hshown
  have hdecided : ∀ decision, decision = liquidityCappedFill rate (order.liquidityContext event price) →
      decision.status.isFill → ∃ quantity, decision.quantity = some quantity ∧
        quantity ≤ multiply shown rate := by
    rintro decision rfl hstatus
    unfold liquidityCappedFill at hstatus ⊢
    rw [hcontext] at hstatus ⊢
    dsimp only at hstatus ⊢
    split_ifs at hstatus ⊢ with hcap hrequested
    · cases hstatus
    · exact ⟨_, rfl, hrequested⟩
    · exact ⟨_, rfl, le_rfl⟩
  unfold decideFill at hfill ⊢
  generalize hd : liquidityCappedFill rate (order.liquidityContext event price) = decision at *
  dsimp only at hfill ⊢
  cases hquantity : decision.quantity with
  | none =>
    rw [hquantity] at hfill
    obtain ⟨quantity, hsome, -⟩ := hdecided decision rfl hfill
    rw [hquantity] at hsome
    cases hsome
  | some quantity =>
    rw [hquantity] at hfill
    dsimp only at hfill ⊢
    split_ifs at hfill ⊢ with hstays hzero
    · obtain ⟨quantity', hsome, hle⟩ := hdecided decision rfl hfill
      simpa [FillDecision.fills, hsome] using hle
    · cases hfill
    · have hpartial : decision.status.isFill := by
        push Not at hstays
        rw [hstays.2]
        rfl
      obtain ⟨quantity', hsome, hle⟩ := hdecided decision rfl hpartial
      obtain rfl := Option.some.inj (hquantity.symm.trans hsome)
      exact (roundDown_le (not_le.mp hzero)).trans hle

/-- What a queue leaves of a decision is no more than it was, and than the queue allows. -/
theorem withinQueue_le {decision : FillDecision} {order : Order} {cap : Decimal}
    {wholeUnits : Bool} (hfill : (withinQueue decision order cap wholeUnits).status.isFill) :
    decision.status.isFill ∧ (withinQueue decision order cap wholeUnits).fills order ≤ cap ∧
      (withinQueue decision order cap wholeUnits).fills order ≤ decision.fills order := by
  unfold withinQueue at hfill ⊢
  by_cases hstatus : decision.status.isFill
  · rw [if_neg (not_not.mpr hstatus)] at hfill ⊢
    by_cases hle : decision.fills order ≤ cap
    · rw [if_pos hle]
      exact ⟨hstatus, hle, le_rfl⟩
    · rw [if_neg hle] at hfill ⊢
      have hallowed : ∀ allowed, allowed = (if wholeUnits then roundDown cap else cap) →
          0 < allowed → allowed ≤ cap := by
        rintro _ rfl hpos
        split_ifs at hpos ⊢
        · exact roundDown_le hpos
        · exact le_rfl
      dsimp only at hfill ⊢
      generalize (if wholeUnits then roundDown cap else cap) = allowed at hfill hallowed ⊢
      split_ifs at hfill ⊢ with hnone
      · cases hfill
      · have hcap := hallowed allowed rfl (not_le.mp hnone)
        exact ⟨hstatus, hcap, hcap.trans (not_le.mp hle).le⟩
  · rw [if_pos hstatus] at hfill
    exact absurd hfill hstatus

end AlphaLab
