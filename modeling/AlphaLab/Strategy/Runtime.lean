/-
  The strategy runtime's state (`strategy/events.py`, `strategy/state.py`,
  `strategy/subscription.py`, `strategy/supervisor.py`).

  * an `InboundEvent` carries the topic it is delivered under, and its asset or subject;
  * `RoutingIndex.reaching` is read off the positions of the subscribers; it names the
    strategies whose subscriptions accept an event, in registration order (`reaching_of`);
  * a `RuntimeState` holds the strategies and the log of `RuntimeEvent`s, the elections
    among them.
-/
import AlphaLab.Allocation.Engine
import AlphaLab.Lib.SortBy

namespace AlphaLab

open Fallible

/-! ## Subscriptions -/

inductive Topic where
  | ticks | quotes | trades | bars | fills | orders | timers | slices | observations
deriving DecidableEq

/-- `StrategyInboundEvent`: what is delivered, and `topic_of` it. -/
structure InboundEvent (β : Type) where
  topic : Option (Topic × Option String)
  body : β

structure Subscriptions where
  everything : Bool := false
  topics : List Topic := []
  scopes : List (Topic × String) := []

def Subscriptions.accepts (routing : Subscriptions) (topic : Topic) (assetId : Option String) :
    Bool :=
  routing.everything || routing.topics.contains topic ||
    assetId.any fun asset => routing.scopes.contains (topic, asset)

/-- `RoutingIndex`: each list holds positions in `ids`. -/
structure RoutingIndex where
  ids : List String
  everything : List ℕ
  topics : Topic → List ℕ
  scopes : Topic × String → List ℕ

namespace RoutingIndex

def positions (routes : List (String × Subscriptions)) (p : Subscriptions → Bool) : List ℕ :=
  (routes.zipIdx.filter fun r => p r.1.2).map Prod.snd

def of (routes : List (String × Subscriptions)) : RoutingIndex where
  ids := routes.map Prod.fst
  everything := positions routes Subscriptions.everything
  topics topic := positions routes fun routing => routing.topics.contains topic
  scopes key := positions routes fun routing => routing.scopes.contains key

def reaching (index : RoutingIndex) (topic : Topic) (assetId : Option String) : List String :=
  let found := index.everything ++ index.topics topic ++
    assetId.elim [] fun asset => index.scopes (topic, asset)
  (sortBy id found.dedup).filterMap (index.ids[·]?)

end RoutingIndex

/-! ## Strategies -/

inductive StrategyStatus where
  | created | configured | initialized | subscribed | running | paused | stopping | stopped
  | failed | disposed
deriving DecidableEq

/-- Why a strategy failed: a hook that raised, with its text, or a malformed intent. -/
inductive FailureReason where
  | onStart (error : String)
  | hook (error : String)
  | stopping (error : String)
  | invalidIntent (intent : Intent)
deriving DecidableEq

/-- `StrategyState`: `instance_` is the strategy itself, with whatever it keeps. -/
structure StrategyState (σ : Type) where
  status : StrategyStatus
  instance_ : σ
  routing : Subscriptions := { everything := true }
  lastError : Option FailureReason := none
  started : Bool := false

/-- `StrategyRuntimeEvent` -/
inductive RuntimeEvent where
  | lifecycleTransitioned (timestamp : Instant) (strategyId : String)
      (oldState newState : StrategyStatus) (reason : Option FailureReason)
  | exerciseRefused (timestamp : Instant) (strategyId assetId : String) (contracts : Decimal)
      (reason : String)
  | amendRefused (timestamp : Instant) (strategyId assetId reason : String)
  | cancelRefused (timestamp : Instant) (strategyId assetId orderId reason : String)
  | electionMade (timestamp : Instant) (strategyId assetId action : String) (alternative : ℤ)
  | unitsElected (timestamp : Instant) (strategyId assetId action : String) (alternative : ℤ)
      (units : Decimal)
  | holdersRecorded (timestamp : Instant) (assetId action : String)
      (holders : Dict String Decimal)
  | termsAnnounced (timestamp : Instant) (assetId action : String) (version : ℕ)
deriving DecidableEq

/-- Whether an event is an election, of the whole holding or of some units. -/
def RuntimeEvent.isElection : RuntimeEvent → Bool
  | electionMade .. | unitsElected .. => true
  | lifecycleTransitioned .. | exerciseRefused .. | amendRefused .. | cancelRefused ..
  | holdersRecorded .. | termsAnnounced .. => false

structure RuntimeState (σ : Type) where
  strategies : Dict String (StrategyState σ)
  events : List RuntimeEvent

namespace RuntimeState

variable {σ : Type} (s : RuntimeState σ)

def reach : RoutingIndex :=
  .of (s.strategies.entries.map fun e => (e.1, e.2.routing))

def logged (events : List RuntimeEvent) : RuntimeState σ :=
  { s with events := s.events ++ events }

def elections : List RuntimeEvent := s.events.filter RuntimeEvent.isElection

@[simp] theorem elections_logged (events : List RuntimeEvent) :
    (s.logged events).elections = s.elections ++ events.filter RuntimeEvent.isElection := by
  simp [elections, logged]

end RuntimeState

namespace RoutingIndex

variable {routes : List (String × Subscriptions)}

theorem mem_positions {p : Subscriptions → Bool} {i : ℕ} :
    i ∈ positions routes p ↔ ∃ r, routes[i]? = some r ∧ p r.2 = true := by
  simp [positions, List.mem_zipIdx_iff_getElem?]

theorem filterMap_positions (p : Subscriptions → Bool) :
    (positions routes p).filterMap ((routes.map Prod.fst)[·]?) =
      (routes.filter fun r => p r.2).map Prod.fst := by
  have hget : ∀ r ∈ routes.zipIdx.filter fun r => p r.1.2,
      (routes.map Prod.fst)[r.2]? = some r.1.1 := by
    rintro ⟨r, i⟩ hr
    have hri : routes[i]? = some r := List.mem_zipIdx_iff_getElem?.mp (List.mem_filter.mp hr).1
    simp [hri]
  rw [positions, List.filterMap_map]
  calc (routes.zipIdx.filter fun r => p r.1.2).filterMap ((routes.map Prod.fst)[·.2]?)
      = (routes.zipIdx.filter fun r => p r.1.2).filterMap fun r => some r.1.1 :=
        List.filterMap_congr hget
    _ = (routes.zipIdx.filter fun r => p r.1.2).map fun r => r.1.1 := by
        rw [← List.filterMap_eq_map]
        rfl
    _ = ((routes.zipIdx.map Prod.fst).filter fun r => p r.2).map Prod.fst := by
        rw [List.filter_map, List.map_map]
        rfl
    _ = (routes.filter fun r => p r.2).map Prod.fst := by
        rw [List.zipIdx_map_fst]

theorem positions_sorted (p : Subscriptions → Bool) : (positions routes p).Pairwise (· < ·) := by
  have hsorted : (routes.zipIdx.map Prod.snd).Pairwise (· < ·) := by
    rw [List.zipIdx_map_snd]
    exact List.pairwise_lt_range'
  exact hsorted.sublist (List.filter_sublist.map _)

/-- **The index answers as the subscriptions do**, one by one in registration order. -/
theorem reaching_of (topic : Topic) (assetId : Option String) :
    (of routes).reaching topic assetId =
      (routes.filter fun r => r.2.accepts topic assetId).map Prod.fst := by
  rw [← filterMap_positions (fun routing => routing.accepts topic assetId), reaching]
  congr 1
  have hpositions :
      (positions routes fun routing => routing.accepts topic assetId).Pairwise (· < ·) :=
    positions_sorted _
  have hsorted : sortBy id (positions routes fun routing => routing.accepts topic assetId) =
      positions routes fun routing => routing.accepts topic assetId :=
    List.Pairwise.insertionSort_eq (hpositions.imp le_of_lt)
  rw [← hsorted]
  refine sortBy_eq_of_mem_iff (by simpa [Fallible.Keyed] using List.nodup_dedup _)
    (by simpa [Fallible.Keyed] using hpositions.nodup) fun i => ?_
  simp only [List.mem_dedup, List.mem_append, of, mem_positions, Subscriptions.accepts]
  cases assetId with
  | none => grind
  | some asset => simp only [Option.elim_some, mem_positions, Option.any_some]; grind

end RoutingIndex

end AlphaLab
