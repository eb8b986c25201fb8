/-
  The steps that dispatch the strategies (`runtime/execution_pipeline.py`:
  `process_market_event`, `process_timer`, `process_observation`, `close_slice`,
  `stop_strategies`, and what they share).

  * the books, the market and everything else of the pipeline is `π`; what a step does to it
    beside the strategies is a field of `StepOps`, called where the source calls it;
  * an intent that asks for no order is an instruction: cancels and amends are carried out by
    `instructionsRequested`, exercises by `exercisesRequested`, elections are recorded by
    `electionsRequested`.
-/
import AlphaLab.Portfolio.State
import AlphaLab.Strategy.Dispatch

namespace AlphaLab

open Fallible

/-- What the steps do to the rest of the pipeline.  `γ` is what a step is called with (the
    event, the fill policy, the rates), `ρ` what was routed, `τ` what allocation requested. -/
structure StepOps (π γ ρ τ κ β ε : Type) where
  context : π → Instant → String → κ
  last : π → Option Instant
  slice : π → Option (InboundEvent β × Instant)
  event : γ → InboundEvent β × Instant
  /-- What a market step does before its dispatch: prices, marks, working orders. -/
  prepare : γ → π → Except ε (π × ρ)
  cancel : Intent → Instant → π → Except ε (π × List (String × String))
  amend : γ → Bool → Intent → Instant → π → Except ε (π × ρ × Option String)
  allocate : γ → List Intent → Instant → π → Except ε (π × τ)
  /-- `_route_requests`; the orders rest or are worked at once. -/
  route : γ → Bool → List Intent → τ → Instant → π → Except ε (π × ρ)
  nothingRouted : ρ
  andThen : ρ → ρ → ρ
  touched : ρ → Bool
  /-- `_feedback_events`, from the books before the step's orders and as they stand. -/
  feedbackEvents : π → π → ρ → τ → Instant → List (String × InboundEvent β)
  /-- `_strategy_exercise`: carried out, or refused with a reason. -/
  exercise : γ → Intent → ℕ → Instant → π → Except ε (Except String π)
  /-- What a market step does last: buy-ins, the margin call, its result. -/
  conclude : γ → π → Except ε π
  sharesOf : π → String → Dict String Decimal
  beforeLastEvent : ε
  noAction : ε

structure StrategyPipeline (σ π : Type) where
  strategy : RuntimeState σ
  book : π

namespace StrategyPipeline

variable {σ π γ ρ τ κ β ε : Type} (h : StrategyHooks σ κ β) (ops : StepOps π γ ρ τ κ β ε)

def logged (s : StrategyPipeline σ π) (events : List RuntimeEvent) : StrategyPipeline σ π :=
  { s with strategy := s.strategy.logged events }

/-! ## Instructions -/

/-- One cancel instruction, with a `CancelRefused` for each order left working. -/
def cancelRequested (timestamp : Instant) (s : StrategyPipeline σ π) (i : Intent) :
    Except ε (StrategyPipeline σ π) := do
  let (book, left) ← ops.cancel i timestamp s.book
  let refused := left.map fun order =>
    RuntimeEvent.cancelRefused timestamp i.strategyId i.instrument order.1 order.2
  .ok ({ s with book := book }.logged refused)

def cancelsRequested (intents : List Intent) (timestamp : Instant) (s : StrategyPipeline σ π) :
    Except ε (StrategyPipeline σ π) :=
  (intents.filter (·.kind = .cancel)).foldlM (cancelRequested ops timestamp) s

/-- One amend instruction, with an `AmendRefused` if it could not be made. -/
def amendRequested (call : γ) (rest : Bool) (timestamp : Instant)
    (acc : StrategyPipeline σ π × ρ) (i : Intent) : Except ε (StrategyPipeline σ π × ρ) := do
  let (book, routed, refusal) ← ops.amend call rest i timestamp acc.1.book
  let refused := refusal.toList.map fun reason =>
    RuntimeEvent.amendRefused timestamp i.strategyId i.instrument reason
  .ok ({ acc.1 with book := book }.logged refused, ops.andThen acc.2 routed)

def amendsRequested (call : γ) (rest : Bool) (intents : List Intent) (timestamp : Instant)
    (s : StrategyPipeline σ π) : Except ε (StrategyPipeline σ π × ρ) :=
  (intents.filter (·.kind = .amend)).foldlM (amendRequested ops call rest timestamp)
    (s, ops.nothingRouted)

def forOrders (intents : List Intent) : List Intent := intents.filter Intent.asksForOrder

/-- `_instructions_requested`, of what is left to size `forOrders`. -/
def instructionsRequested (call : γ) (rest : Bool) (intents : List Intent) (timestamp : Instant)
    (s : StrategyPipeline σ π) : Except ε (StrategyPipeline σ π × ρ) := do
  let s ← s.cancelsRequested ops intents timestamp
  s.amendsRequested ops call rest intents timestamp

/-- One exercise instruction, the `number`-th, with an `ExerciseRefused` if it is refused. -/
def exerciseRequested (call : γ) (timestamp : Instant) (acc : StrategyPipeline σ π × ℕ)
    (i : Intent) : Except ε (StrategyPipeline σ π × ℕ) := do
  let answer ← ops.exercise call i acc.2 timestamp acc.1.book
  .ok (match answer with
    | .ok book => { acc.1 with book := book }
    | .error reason =>
      acc.1.logged [.exerciseRefused timestamp i.strategyId i.instrument i.target reason],
    acc.2 + 1)

def exercisesRequested (call : γ) (intents : List Intent) (timestamp : Instant)
    (s : StrategyPipeline σ π) : Except ε (StrategyPipeline σ π) := do
  let (s, _) ← (intents.filter (·.kind = .exercise)).foldlM
    (exerciseRequested ops call timestamp) (s, 0)
  .ok s

/-- The index of the alternative an election names, as `int` reads it. -/
def alternativeOf (i : Intent) : ℤ := i.target.num.tdiv i.target.den

/-- The election an intent makes: of the units it names, or of the whole holding. -/
def electionOf (decimalOf : String → Option Decimal) (timestamp : Instant) (i : Intent) :
    Option RuntimeEvent :=
  (i.metadata.get? "action").bind fun action =>
    match i.metadata.get? "units" with
    | none =>
      some (.electionMade timestamp i.strategyId i.instrument action (alternativeOf i))
    | some units => (decimalOf units).map
        (.unitsElected timestamp i.strategyId i.instrument action (alternativeOf i))

def electionsRequested (intents : List Intent) (timestamp : Instant) (s : StrategyPipeline σ π) :
    Except ε (StrategyPipeline σ π) := do
  let made ← orRefuse ((intents.filter (·.kind = .elect)).mapM
    (electionOf h.decimalOf timestamp)) ops.noAction
  .ok (s.logged made)

/-! ## The steps -/

def wantsFeedback (s : StrategyPipeline σ π) : Bool :=
  [Topic.fills, Topic.orders].any fun topic =>
    (s.strategy.reach.reaching topic none).any fun id =>
      (s.strategy.strategies.get? id).any fun entry => entry.status = .running

def withStrategy (s : StrategyPipeline σ π) (strategy : RuntimeState σ) : StrategyPipeline σ π :=
  { s with strategy := strategy }

def placeOrders (call : γ) (rest : Bool) (intents : List Intent) (timestamp : Instant)
    (s : StrategyPipeline σ π) : Except ε (StrategyPipeline σ π × ρ × τ) := do
  let (book, requests) ← ops.allocate call (forOrders intents) timestamp s.book
  let (book, routed) ← ops.route call rest (forOrders intents) requests timestamp book
  .ok ({ s with book := book }, routed, requests)

/-- The second half of `_deliver_feedback`: the deliveries made, and their answers routed. -/
def answerFeedback (call : γ) (deliveries : List (String × InboundEvent β)) (instant : Instant)
    (s : StrategyPipeline σ π) : Except ε (StrategyPipeline σ π × List Intent) := do
  let (strategy, intents) :=
    StrategyEngine.deliver h s.strategy deliveries (ops.context s.book instant) instant
  let (s, _) ← (s.withStrategy strategy).instructionsRequested ops call true intents instant
  if (forOrders intents).isEmpty then .ok (s, intents)
  else do
    let (s, _) ← s.placeOrders ops call true intents instant
    .ok (s, intents)

/-- `_deliver_feedback`: what the step routed, from the books before its orders. -/
def deliverFeedback (call : γ) (before : π) (routed : ρ) (requests : τ) (instant : Instant)
    (s : StrategyPipeline σ π) : Except ε (StrategyPipeline σ π × List Intent) :=
  let deliveries := ops.feedbackEvents before s.book routed requests instant
  if !ops.touched routed || !s.wantsFeedback || deliveries.isEmpty then .ok (s, [])
  else s.answerFeedback h ops call deliveries instant

def processMarketEvent (call : γ) (s : StrategyPipeline σ π) :
    Except ε (StrategyPipeline σ π × List Intent) := do
  let (event, timestamp) := ops.event call
  let (before, earlier) ← ops.prepare call s.book
  let (strategy, intents) :=
    StrategyEngine.processEvent h s.strategy event (ops.context before timestamp) timestamp
  let (s, amended) ← instructionsRequested ops call false intents timestamp
    ⟨strategy, before⟩
  let (s, routed, requests) ← s.placeOrders ops call false intents timestamp
  let routed := ops.andThen (ops.andThen earlier amended) routed
  let (s, feedbackIntents) ← s.deliverFeedback h ops call before routed requests timestamp
  let s ← s.exercisesRequested ops call (intents ++ feedbackIntents) timestamp
  let s ← s.electionsRequested h ops (intents ++ feedbackIntents) timestamp
  let book ← ops.conclude call s.book
  .ok ({ s with book := book }, intents ++ feedbackIntents)

def deliverInstant (call : γ) (event : InboundEvent β) (timestamp : Instant)
    (s : StrategyPipeline σ π) : Except ε (StrategyPipeline σ π × List Intent) := do
  let (strategy, intents) :=
    StrategyEngine.processEvent h s.strategy event (ops.context s.book timestamp) timestamp
  let (s, amended) ← (s.withStrategy strategy).instructionsRequested ops call true intents timestamp
  if (forOrders intents).isEmpty || (ops.last s.book).isNone then do
    let s ← s.exercisesRequested ops call intents timestamp
    .ok (s, intents)
  else do
    let before := s.book
    let (s, routed, requests) ← s.placeOrders ops call true intents timestamp
    let (s, feedbackIntents) ← s.deliverFeedback h ops call before (ops.andThen amended routed)
      requests timestamp
    let s ← s.exercisesRequested ops call (intents ++ feedbackIntents) timestamp
    .ok (s, intents ++ feedbackIntents)

def processTimer (call : γ) (event : InboundEvent β) (timestamp : Instant)
    (s : StrategyPipeline σ π) : Except ε (StrategyPipeline σ π × List Intent) := do
  require (∀ last ∈ ops.last s.book, last ≤ timestamp) ops.beforeLastEvent
  s.deliverInstant h ops call event timestamp

def wantsObservation (s : StrategyPipeline σ π) (subject : String) : Bool :=
  (s.strategy.reach.reaching .observations (some subject)).any fun id =>
    (s.strategy.strategies.get? id).any fun entry =>
      entry.status = .running && h.definesOnObservation entry.instance_

def processObservation (call : γ) (subject : String) (record : β) (timestamp : Instant)
    (s : StrategyPipeline σ π) : Except ε (StrategyPipeline σ π × List Intent) := do
  require (∀ last ∈ ops.last s.book, last ≤ timestamp) ops.beforeLastEvent
  if s.wantsObservation h subject then
    s.deliverInstant h ops call ⟨some (.observations, some subject), record⟩ timestamp
  else .ok (s, [])

def wantsSlices (s : StrategyPipeline σ π) : Bool :=
  (s.strategy.reach.reaching .slices none).any fun id =>
    (s.strategy.strategies.get? id).any fun entry =>
      entry.status = .running && h.definesOnSlice entry.instance_

def closeSlice (call : γ) (s : StrategyPipeline σ π) :
    Except ε (StrategyPipeline σ π × List Intent) :=
  match ops.slice s.book with
  | none => .ok (s, [])
  | some (event, timestamp) =>
    if s.wantsSlices h then s.deliverInstant h ops call event timestamp else .ok (s, [])

def stopStrategies (call : γ) (timestamp : Instant) (strategyIds : Option (List String))
    (s : StrategyPipeline σ π) : Except ε (StrategyPipeline σ π × List Intent) := do
  require (∀ last ∈ ops.last s.book, last ≤ timestamp) ops.beforeLastEvent
  let (strategy, intents) :=
    StrategyEngine.stop h s.strategy (ops.context s.book timestamp) timestamp strategyIds
  let s ← (s.withStrategy strategy).exercisesRequested ops call intents timestamp
  let (s, _) ← s.instructionsRequested ops call true intents timestamp
  if (forOrders intents).isEmpty || (ops.last s.book).isNone then .ok (s, intents)
  else do
    let (s, _) ← s.placeOrders ops call true intents timestamp
    .ok (s, intents)

def recordTerms (assetId action : String) (version : ℕ) (timestamp : Instant)
    (s : StrategyPipeline σ π) : Except ε (StrategyPipeline σ π) := do
  require (∀ last ∈ ops.last s.book, last ≤ timestamp) ops.beforeLastEvent
  .ok (s.logged [.termsAnnounced timestamp assetId action version])

def recordHolders (assetId action : String) (timestamp : Instant) (s : StrategyPipeline σ π) :
    Except ε (StrategyPipeline σ π) := do
  require (∀ last ∈ ops.last s.book, last ≤ timestamp) ops.beforeLastEvent
  .ok (s.logged [.holdersRecorded timestamp assetId action (ops.sharesOf s.book assetId)])

/-- What a run does next: a step that dispatches the strategies, a record of an action, or
    what dispatches nobody (a change of the books, of who runs). -/
inductive Step (σ π γ β ε : Type) where
  | marketEvent (call : γ)
  | timer (call : γ) (event : InboundEvent β) (timestamp : Instant)
  | observation (call : γ) (subject : String) (record : β) (timestamp : Instant)
  | slice (call : γ)
  | stop (call : γ) (timestamp : Instant) (strategyIds : Option (List String))
  | terms (assetId action : String) (version : ℕ) (timestamp : Instant)
  | holders (assetId action : String) (timestamp : Instant)
  | book (change : π → Except ε π)
  | strategies (change : Dict String (StrategyState σ) → Dict String (StrategyState σ))

def Step.timestamp (s : StrategyPipeline σ π) : Step σ π γ β ε → Instant
  | .marketEvent call => (ops.event call).2
  | .timer _ _ timestamp | .observation _ _ _ timestamp | .stop _ timestamp _
  | .terms _ _ _ timestamp | .holders _ _ timestamp => timestamp
  | .slice _ => ((ops.slice s.book).map Prod.snd).getD 0
  | .book _ | .strategies _ => 0

def step (s : StrategyPipeline σ π) :
    Step σ π γ β ε → Except ε (StrategyPipeline σ π × List Intent)
  | .marketEvent call => s.processMarketEvent h ops call
  | .timer call event timestamp => s.processTimer h ops call event timestamp
  | .observation call subject record timestamp =>
    s.processObservation h ops call subject record timestamp
  | .slice call => s.closeSlice h ops call
  | .stop call timestamp strategyIds => s.stopStrategies h ops call timestamp strategyIds
  | .terms assetId action version timestamp => do
    let s ← s.recordTerms ops assetId action version timestamp
    .ok (s, [])
  | .holders assetId action timestamp => do
    let s ← s.recordHolders ops assetId action timestamp
    .ok (s, [])
  | .book change => do
    let book ← change s.book
    .ok ({ s with book := book }, [])
  | .strategies change =>
    .ok ({ s with strategy := { s.strategy with strategies := change s.strategy.strategies } }, [])

end StrategyPipeline

end AlphaLab
