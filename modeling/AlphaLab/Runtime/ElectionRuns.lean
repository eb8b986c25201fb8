/-
  Every election a strategy makes is recorded, over whole runs.

  A run is journaled with what each step's strategies returned.  A step that is not a market
  event records no election, so the log holds each election that was asked for exactly once if
  and only if none was asked for outside the market events (`elections_recorded_iff`).
-/
import AlphaLab.Runtime.Steps

namespace AlphaLab

open Fallible

namespace StrategyPipeline

variable {σ π γ ρ τ κ β ε : Type} {h : StrategyHooks σ κ β} {ops : StepOps π γ ρ τ κ β ε}
  {e : RuntimeEvent} {s : StrategyPipeline σ π}

/-! ## Elections and intents -/

variable {decimalOf : String → Option Decimal} {timestamp : Instant}

theorem isElection_of_electionOf {i : Intent} (he : electionOf decimalOf timestamp i = some e) :
    e.isElection = true := by
  rw [electionOf, Option.bind_eq_some_iff] at he
  obtain ⟨action, -, he⟩ := he
  cases hunits : i.metadata.get? "units" with
  | none =>
    simp only [hunits, Option.some.injEq] at he
    exact he ▸ rfl
  | some units =>
    simp only [hunits, Option.map_eq_some_iff] at he
    obtain ⟨x, -, rfl⟩ := he
    rfl

theorem electionOf_of_valid {i : Intent} (hvalid : validateIntent decimalOf i = true)
    (hkind : i.kind = .elect) (timestamp : Instant) :
    ∃ e, electionOf decimalOf timestamp i = some e := by
  simp only [validateIntent, hkind, Bool.and_eq_true] at hvalid
  obtain ⟨-, ⟨⟨⟨-, haction⟩, hunits⟩, -⟩, -⟩ := hvalid
  obtain ⟨action, haction, -⟩ := (Option.any_eq_true _ _).mp haction
  cases hnamed : i.metadata.get? "units" with
  | none =>
    refine ⟨.electionMade timestamp i.strategyId i.instrument action (alternativeOf i), ?_⟩
    simp only [electionOf, haction, hnamed, Option.bind_some]
  | some units =>
    rw [hnamed] at hunits
    obtain ⟨x, hx, -⟩ := (Option.any_eq_true _ _).mp (by simpa using hunits)
    refine ⟨.unitsElected timestamp i.strategyId i.instrument action (alternativeOf i) x, ?_⟩
    simp only [electionOf, haction, hnamed, Option.bind_some, hx, Option.map_some]

def electionsAsked (decimalOf : String → Option Decimal) (timestamp : Instant)
    (intents : List Intent) : List RuntimeEvent :=
  (intents.filter (·.kind = .elect)).filterMap (electionOf decimalOf timestamp)

variable {intents : List Intent}

theorem electionsAsked_of_mapM {made : List RuntimeEvent}
    (hmade : (intents.filter (·.kind = .elect)).mapM (electionOf decimalOf timestamp) = some made) :
    electionsAsked decimalOf timestamp intents = made := by
  rw [electionsAsked]
  generalize intents.filter (·.kind = .elect) = elects at hmade
  induction elects generalizing made with
  | nil => simpa using hmade
  | cons i elects ih =>
    rw [List.mapM_cons] at hmade
    obtain ⟨e, he, hmade⟩ := Option.bind_eq_some_iff.mp hmade
    obtain ⟨made', hmade', hmade⟩ := Option.bind_eq_some_iff.mp hmade
    obtain rfl := Option.some.inj hmade
    rw [List.filterMap_cons_some he, ih hmade']

theorem electionsAsked_isElection (he : e ∈ electionsAsked decimalOf timestamp intents) :
    e.isElection = true := by
  obtain ⟨i, -, hi⟩ := List.mem_filterMap.mp he
  exact isElection_of_electionOf hi

theorem electionsAsked_eq_nil (hvalid : ∀ i ∈ intents, validateIntent decimalOf i = true) :
    electionsAsked decimalOf timestamp intents = [] ↔ ∀ i ∈ intents, i.kind ≠ .elect := by
  rw [electionsAsked, List.filterMap_eq_nil_iff]
  constructor
  · intro hnone i hi hkind
    obtain ⟨e, he⟩ := electionOf_of_valid (hvalid i hi) hkind timestamp
    have hnone := hnone i (List.mem_filter.mpr ⟨hi, by simpa using hkind⟩)
    exact absurd (he.symm.trans hnone) (by simp)
  · intro hnone i hi
    obtain ⟨hi, hkind⟩ := List.mem_filter.mp hi
    exact absurd (by simpa using hkind) (hnone i hi)

/-! ## What the parts of a step log -/

/-- `t` holds the elections that `s` does. -/
def SameElections (s t : StrategyPipeline σ π) : Prop :=
  t.strategy.elections = s.strategy.elections

theorem sameElections_logged (s : StrategyPipeline σ π) {events : List RuntimeEvent}
    (hevents : ∀ e ∈ events, e.isElection = false) : SameElections s (s.logged events) := by
  have hnone : events.filter RuntimeEvent.isElection = [] := by
    rw [List.filter_eq_nil_iff]
    intro e he
    simp [hevents e he]
  simp [SameElections, logged, hnone]

theorem cancelsRequested_same {s t : StrategyPipeline σ π}
    (ht : s.cancelsRequested ops intents timestamp = .ok t) : SameElections s t := by
  refine foldlM_invariant (SameElections s) ht rfl ?_
  intro i _ u v hv hu
  rw [cancelRequested, bind_ok] at hv
  obtain ⟨⟨book, left⟩, -, hv⟩ := hv
  obtain rfl := Except.ok.inj hv
  refine Eq.trans (sameElections_logged { u with book := book } ?_) hu
  intro e he
  obtain ⟨order, -, rfl⟩ := List.mem_map.mp he
  rfl

variable {call : γ} {rest : Bool}

theorem amendsRequested_same {r : StrategyPipeline σ π × ρ}
    (hr : s.amendsRequested ops call rest intents timestamp = .ok r) : SameElections s r.1 := by
  refine foldlM_invariant (fun r : StrategyPipeline σ π × ρ => SameElections s r.1) hr rfl ?_
  intro i _ u v hv hu
  rw [amendRequested, bind_ok] at hv
  obtain ⟨⟨book, routed, refusal⟩, -, hv⟩ := hv
  obtain rfl := Except.ok.inj hv
  refine Eq.trans (sameElections_logged { u.1 with book := book } ?_) hu
  intro e he
  obtain ⟨reason, -, rfl⟩ := List.mem_map.mp he
  rfl

theorem instructionsRequested_same {r : StrategyPipeline σ π × ρ}
    (hr : s.instructionsRequested ops call rest intents timestamp = .ok r) :
    SameElections s r.1 := by
  rw [instructionsRequested, bind_ok] at hr
  obtain ⟨t, ht, hr⟩ := hr
  exact (amendsRequested_same hr).trans (cancelsRequested_same ht)

theorem exercisesRequested_same {s t : StrategyPipeline σ π}
    (ht : s.exercisesRequested ops call intents timestamp = .ok t) : SameElections s t := by
  rw [exercisesRequested, bind_ok] at ht
  obtain ⟨r, hr, ht⟩ := ht
  obtain rfl := Except.ok.inj ht
  refine foldlM_invariant (fun r : StrategyPipeline σ π × ℕ => SameElections s r.1) hr rfl ?_
  intro i _ u v hv hu
  rw [exerciseRequested, bind_ok] at hv
  obtain ⟨answer, -, hv⟩ := hv
  obtain rfl := Except.ok.inj hv
  cases answer with
  | ok book => exact hu
  | error reason =>
    exact (sameElections_logged u.1 (by simp [RuntimeEvent.isElection])).trans hu

theorem placeOrders_same {r : StrategyPipeline σ π × ρ × τ}
    (hr : s.placeOrders ops call rest intents timestamp = .ok r) : SameElections s r.1 := by
  rw [placeOrders, bind_ok] at hr
  obtain ⟨⟨book, requests⟩, -, hr⟩ := hr
  obtain ⟨⟨book', routed⟩, -, hr⟩ := bind_ok.mp hr
  obtain rfl := Except.ok.inj hr
  rfl

/-- What a dispatch does: it returns well-formed intents, and it logs no election. -/
structure Dispatches (h : StrategyHooks σ κ β) (s : StrategyPipeline σ π)
    (r : StrategyPipeline σ π × List Intent) : Prop where
  valid : ∀ i ∈ r.2, validateIntent h.decimalOf i = true
  same : SameElections s r.1

theorem Dispatches.nothing (s : StrategyPipeline σ π) : Dispatches h s (s, []) :=
  ⟨by simp, rfl⟩

variable {r : StrategyPipeline σ π × List Intent}

theorem deliverFeedback_dispatches {before : π} {routed : ρ} {requests : τ} {instant : Instant}
    (hr : s.deliverFeedback h ops call before routed requests instant = .ok r) :
    Dispatches h s r := by
  unfold deliverFeedback at hr
  dsimp only at hr
  split_ifs at hr
  · obtain rfl := Except.ok.inj hr
    exact .nothing s
  rw [answerFeedback] at hr
  obtain ⟨hvalid, hsame⟩ := StrategyEngine.deliver_spec (h := h)
    (ops.context s.book instant) instant s.strategy
    (ops.feedbackEvents before s.book routed requests instant)
  obtain ⟨⟨t, amended⟩, ht, hr⟩ := bind_ok.mp hr
  have ht := (instructionsRequested_same ht).trans hsame
  dsimp only at hr
  split_ifs at hr
  · obtain rfl := Except.ok.inj hr
    exact ⟨hvalid, ht⟩
  · obtain ⟨⟨u, placed⟩, hu, hr⟩ := bind_ok.mp hr
    obtain rfl := Except.ok.inj hr
    exact ⟨hvalid, (placeOrders_same hu).trans ht⟩

/-- **A market event records every election** its strategies returned, and no other. -/
theorem processMarketEvent_elections (hr : s.processMarketEvent h ops call = .ok r) :
    (∀ i ∈ r.2, validateIntent h.decimalOf i = true) ∧
      r.1.strategy.elections =
        s.strategy.elections ++ electionsAsked h.decimalOf (ops.event call).2 r.2 := by
  rw [processMarketEvent] at hr
  obtain ⟨⟨before, earlier⟩, -, hr⟩ := bind_ok.mp hr
  obtain ⟨hvalid, hsame⟩ := StrategyEngine.processEvent_spec (h := h)
    (ops.context before (ops.event call).2) (ops.event call).2 s.strategy (ops.event call).1
  obtain ⟨⟨t, amended⟩, ht, hr⟩ := bind_ok.mp hr
  obtain ⟨⟨u, routed, requests⟩, hu, hr⟩ := bind_ok.mp hr
  obtain ⟨⟨v, answers⟩, hv, hr⟩ := bind_ok.mp hr
  obtain ⟨w, hw, hr⟩ := bind_ok.mp hr
  obtain ⟨x, hx, hr⟩ := bind_ok.mp hr
  obtain ⟨book, -, hr⟩ := bind_ok.mp hr
  obtain rfl := Except.ok.inj hr
  have hv := deliverFeedback_dispatches hv
  have hw : w.strategy.elections = s.strategy.elections :=
    (((exercisesRequested_same hw).trans hv.same).trans (placeOrders_same hu)).trans
      ((instructionsRequested_same ht).trans hsame)
  constructor
  · intro i hi
    rcases List.mem_append.mp hi with hi | hi
    · exact hvalid i hi
    · exact hv.valid i hi
  · rw [electionsRequested] at hx
    obtain ⟨made, hmade, hx⟩ := bind_ok.mp hx
    obtain rfl := Except.ok.inj hx
    have hasked := electionsAsked_of_mapM (orRefuse_ok.mp hmade)
    have hmade : made.filter RuntimeEvent.isElection = made := by
      rw [List.filter_eq_self, ← hasked]
      exact fun e => electionsAsked_isElection
    simp only [logged, RuntimeState.elections_logged, hmade]
    rw [hasked, hw]

theorem deliverInstant_dispatches {event : InboundEvent β}
    (hr : s.deliverInstant h ops call event timestamp = .ok r) : Dispatches h s r := by
  rw [deliverInstant] at hr
  obtain ⟨hvalid, hsame⟩ := StrategyEngine.processEvent_spec (h := h)
    (ops.context s.book timestamp) timestamp s.strategy event
  obtain ⟨⟨t, amended⟩, ht, hr⟩ := bind_ok.mp hr
  have ht := (instructionsRequested_same ht).trans hsame
  dsimp only at hr
  split_ifs at hr
  · obtain ⟨u, hu, hr⟩ := bind_ok.mp hr
    obtain rfl := Except.ok.inj hr
    exact ⟨hvalid, (exercisesRequested_same hu).trans ht⟩
  · obtain ⟨⟨u, routed, requests⟩, hu, hr⟩ := bind_ok.mp hr
    obtain ⟨⟨v, answers⟩, hv, hr⟩ := bind_ok.mp hr
    obtain ⟨w, hw, hr⟩ := bind_ok.mp hr
    obtain rfl := Except.ok.inj hr
    have hv := deliverFeedback_dispatches hv
    refine ⟨?_, (((exercisesRequested_same hw).trans hv.same).trans (placeOrders_same hu)).trans ht⟩
    intro i hi
    rcases List.mem_append.mp hi with hi | hi
    · exact hvalid i hi
    · exact hv.valid i hi

theorem stopStrategies_dispatches {strategyIds : Option (List String)}
    (hr : s.stopStrategies h ops call timestamp strategyIds = .ok r) : Dispatches h s r := by
  rw [stopStrategies] at hr
  obtain ⟨-, -, hr⟩ := bind_ok.mp hr
  obtain ⟨hvalid, hsame⟩ := StrategyEngine.stop_spec (h := h)
    (ops.context s.book timestamp) timestamp s.strategy strategyIds
  obtain ⟨t, ht, hr⟩ := bind_ok.mp hr
  obtain ⟨⟨u, amended⟩, hu, hr⟩ := bind_ok.mp hr
  have hu := ((instructionsRequested_same hu).trans (exercisesRequested_same ht)).trans hsame
  dsimp only at hr
  split_ifs at hr
  · obtain rfl := Except.ok.inj hr
    exact ⟨hvalid, hu⟩
  · obtain ⟨⟨v, placed⟩, hv, hr⟩ := bind_ok.mp hr
    obtain rfl := Except.ok.inj hr
    exact ⟨hvalid, (placeOrders_same hv).trans hu⟩

def Step.isMarketEvent : Step σ π γ β ε → Bool
  | .marketEvent _ => true
  | .timer .. | .observation .. | .slice _ | .stop .. | .terms .. | .holders .. | .book _
  | .strategies _ => false

/-- **No other step records an election**, whatever its strategies returned. -/
theorem step_dispatches {i : Step σ π γ β ε} (hr : s.step h ops i = .ok r)
    (hi : i.isMarketEvent = false) : Dispatches h s r := by
  cases i with
  | marketEvent call => cases hi
  | timer call event timestamp =>
    obtain ⟨-, -, hr⟩ := bind_ok.mp hr
    exact deliverInstant_dispatches hr
  | observation call subject record timestamp =>
    obtain ⟨-, -, hr⟩ := bind_ok.mp hr
    split_ifs at hr
    · exact deliverInstant_dispatches hr
    · obtain rfl := Except.ok.inj hr
      exact .nothing s
  | slice call =>
    rw [step, closeSlice] at hr
    cases hslice : ops.slice s.book with
    | none =>
      rw [hslice] at hr
      obtain rfl := Except.ok.inj hr
      exact .nothing s
    | some closed =>
      rw [hslice] at hr
      dsimp only at hr
      split_ifs at hr
      · exact deliverInstant_dispatches hr
      · obtain rfl := Except.ok.inj hr
        exact .nothing s
  | stop call timestamp strategyIds => exact stopStrategies_dispatches hr
  | terms assetId action version timestamp =>
    obtain ⟨t, ht, hr⟩ := bind_ok.mp hr
    obtain rfl := Except.ok.inj hr
    obtain ⟨-, -, ht⟩ := bind_ok.mp ht
    obtain rfl := Except.ok.inj ht
    exact ⟨by simp, sameElections_logged s (by simp [RuntimeEvent.isElection])⟩
  | holders assetId action timestamp =>
    obtain ⟨t, ht, hr⟩ := bind_ok.mp hr
    obtain rfl := Except.ok.inj hr
    obtain ⟨-, -, ht⟩ := bind_ok.mp ht
    obtain rfl := Except.ok.inj ht
    exact ⟨by simp, sameElections_logged s (by simp [RuntimeEvent.isElection])⟩
  | book change =>
    obtain ⟨book, -, hr⟩ := bind_ok.mp hr
    obtain rfl := Except.ok.inj hr
    exact ⟨by simp, rfl⟩
  | strategies change =>
    obtain rfl := Except.ok.inj hr
    exact ⟨by simp, rfl⟩

end StrategyPipeline

/-! ## Runs -/

/-- What the strategies returned in one step: from the hooks of a market event and its
    feedback, or from those of another step. -/
structure Asked where
  timestamp : Instant
  atMarketEvent : Bool
  intents : List Intent

def Asked.elections (decimalOf : String → Option Decimal) (a : Asked) : List RuntimeEvent :=
  StrategyPipeline.electionsAsked decimalOf a.timestamp a.intents

structure ElectionRun (σ π : Type) where
  pipeline : StrategyPipeline σ π
  asked : List Asked

namespace ElectionRun

variable {σ π γ ρ τ κ β ε : Type} (h : StrategyHooks σ κ β) (ops : StepOps π γ ρ τ κ β ε)

def start (s : StrategyPipeline σ π) : ElectionRun σ π := ⟨s, []⟩

def step (r : ElectionRun σ π) (i : StrategyPipeline.Step σ π γ β ε) :
    Except ε (ElectionRun σ π) := do
  let (pipeline, intents) ← r.pipeline.step h ops i
  .ok ⟨pipeline, r.asked ++ [⟨i.timestamp ops r.pipeline, i.isMarketEvent, intents⟩]⟩

/-- Each election that was asked for since `s` is in the log once, and no other is. -/
def EveryElectionRecorded (s : StrategyPipeline σ π) (r : ElectionRun σ π) : Prop :=
  ∀ e : RuntimeEvent, e.isElection = true →
    r.pipeline.strategy.events.count e =
      s.strategy.events.count e + (r.asked.flatMap (Asked.elections h.decimalOf)).count e

variable {h ops}

/-- What the log of a run holds: the elections of its market events, and those it started
    with; what the strategies returned is well formed. -/
structure Holds (h : StrategyHooks σ κ β) (s : StrategyPipeline σ π) (r : ElectionRun σ π) :
    Prop where
  elections : r.pipeline.strategy.elections = s.strategy.elections ++
    (r.asked.filter Asked.atMarketEvent).flatMap (Asked.elections h.decimalOf)
  valid : ∀ a ∈ r.asked, ∀ i ∈ a.intents, validateIntent h.decimalOf i = true

theorem Holds.step {r r' : ElectionRun σ π} {i : StrategyPipeline.Step σ π γ β ε} (hr : Holds h s r)
    (hstep : r.step h ops i = .ok r') : Holds h s r' := by
  obtain ⟨⟨pipeline, intents⟩, hi, hstep⟩ := bind_ok.mp hstep
  obtain rfl := Except.ok.inj hstep
  have hvalid : (∀ i ∈ intents, validateIntent h.decimalOf i = true) →
      ∀ a ∈ r.asked ++ [⟨i.timestamp ops r.pipeline, i.isMarketEvent, intents⟩],
        ∀ i ∈ a.intents, validateIntent h.decimalOf i = true := by
    intro hintents a ha
    rcases List.mem_append.mp ha with ha | ha
    · exact hr.valid a ha
    · obtain rfl := List.mem_singleton.mp ha
      exact hintents
  cases hmarket : i.isMarketEvent with
  | false =>
    obtain ⟨hintents, hsame⟩ := StrategyPipeline.step_dispatches hi hmarket
    refine ⟨?_, hmarket ▸ hvalid hintents⟩
    rw [List.filter_append, List.filter_cons_of_neg (by simp), List.filter_nil, List.append_nil]
    exact Eq.trans hsame hr.elections
  | true =>
    cases i with
    | marketEvent call =>
      obtain ⟨hintents, helections⟩ := StrategyPipeline.processMarketEvent_elections hi
      refine ⟨?_, hmarket ▸ hvalid hintents⟩
      rw [List.filter_append, List.filter_cons_of_pos rfl, List.filter_nil, List.flatMap_append,
        ← List.append_assoc, ← hr.elections]
      simpa [Asked.elections, StrategyPipeline.Step.timestamp] using helections
    | timer | observation | slice | stop | terms | holders | book | strategies => cases hmarket

variable {s : StrategyPipeline σ π}

theorem holds_of_runs {r : ElectionRun σ π} (hrun : Runs (step h ops) (fun _ _ => True) (start s) r) :
    Holds h s r := by
  refine hrun.invariant (Holds h s) ⟨by simp [start], by simp [start]⟩ ?_
  intro t i u ht _ hu
  exact ht.step hu

theorem count_elections {e : RuntimeEvent} (he : e.isElection = true) :
    s.strategy.elections.count e = s.strategy.events.count e := by
  rw [RuntimeState.elections, List.count_filter he]

/-- **Every election is recorded exactly once if and only if every one was asked for at a
    market event**, from its hook or in answer to its fills and orders. -/
theorem elections_recorded_iff {s : StrategyPipeline σ π} {r : ElectionRun σ π}
    (hrun : Runs (step h ops) (fun _ _ => True) (start s) r) :
    EveryElectionRecorded h s r ↔
      ∀ a ∈ r.asked, a.atMarketEvent = false → ∀ i ∈ a.intents, i.kind ≠ .elect := by
  obtain ⟨helections, hvalid⟩ := holds_of_runs hrun
  -- what was asked for and is not in the log
  have hmissed : EveryElectionRecorded h s r ↔
      (r.asked.filter fun a => !a.atMarketEvent).flatMap (Asked.elections h.decimalOf) = [] := by
    have hcount : ∀ e, (r.asked.flatMap (Asked.elections h.decimalOf)).count e =
        ((r.asked.filter Asked.atMarketEvent).flatMap (Asked.elections h.decimalOf)).count e +
          ((r.asked.filter fun a => !a.atMarketEvent).flatMap
            (Asked.elections h.decimalOf)).count e := by
      intro e
      rw [← List.count_append, ← List.flatMap_append]
      exact (((List.filter_append_perm Asked.atMarketEvent r.asked).flatMap_right _).count_eq e).symm
    constructor
    · intro hrecorded
      rw [List.eq_nil_iff_forall_not_mem]
      intro e he
      obtain ⟨a, -, ha⟩ := List.mem_flatMap.mp he
      have hisElection := StrategyPipeline.electionsAsked_isElection ha
      have hlog := hrecorded e hisElection
      rw [← count_elections hisElection, ← count_elections hisElection, helections,
        List.count_append, hcount e] at hlog
      have hpos := List.count_pos_iff.mpr he
      omega
    · intro hnone e he
      rw [← count_elections he, ← count_elections he, helections, List.count_append, hcount e,
        hnone, List.count_nil, Nat.add_zero]
  rw [hmissed, List.flatMap_eq_nil_iff]
  constructor
  · intro hnone a ha hmarket
    exact (StrategyPipeline.electionsAsked_eq_nil (hvalid a ha)).mp
      (hnone a (List.mem_filter.mpr ⟨ha, by simp [hmarket]⟩))
  · intro hnone a ha
    obtain ⟨ha, hmarket⟩ := List.mem_filter.mp ha
    exact (StrategyPipeline.electionsAsked_eq_nil (hvalid a ha)).mpr
      (hnone a ha (by simpa using hmarket))

/-! ### A holder that elects -/

def electing : Intent where
  strategyId := "alpha"
  instrument := "AAPL"
  target := 1
  metadata := Dict.empty.set "action" "TENDER-1"
  kind := .elect

def holderHooks : StrategyHooks Unit Unit Unit where
  onStart s _ := (s, .ok ())
  on _ s _ _ := (s, .ok [electing])
  onShutdown s _ := (s, .ok [])
  onStop s _ := (s, .ok ())
  definesOnSlice _ := false
  definesOnObservation _ := true
  decimalOf _ := none

/-- A pipeline with no orders: all of the rest is the timestamp of the last event. -/
def idleOps : StepOps (Option Instant) Instant Unit Unit Unit Unit Unit where
  context _ _ _ := ()
  last last := last
  slice last := last.map fun timestamp => (⟨some (.slices, none), ()⟩, timestamp)
  event timestamp := (⟨some (.bars, some "AAPL"), ()⟩, timestamp)
  prepare timestamp _ := .ok (some timestamp, ())
  cancel _ _ last := .ok (last, [])
  amend _ _ _ _ last := .ok (last, (), none)
  allocate _ _ _ last := .ok (last, ())
  route _ _ _ _ _ last := .ok (last, ())
  nothingRouted := ()
  andThen _ _ := ()
  touched _ := false
  feedbackEvents _ _ _ _ _ := []
  exercise _ _ _ _ last := .ok (.ok last)
  conclude _ last := .ok last
  sharesOf _ _ := Dict.empty
  beforeLastEvent := ()
  noAction := ()

def holding : StrategyPipeline Unit (Option Instant) :=
  ⟨⟨Dict.empty.set "alpha" { status := .running, instance_ := () }, []⟩, none⟩

def holderRun (steps : List (StrategyPipeline.Step Unit (Option Instant) Instant Unit Unit)) :
    ElectionRun Unit (Option Instant) :=
  (steps.foldlM (step holderHooks idleOps) (start holding)).toOption.getD (start holding)

theorem elected_on_bar : EveryElectionRecorded holderHooks holding (holderRun [.marketEvent 1]) :=
  have hrun : Runs (step holderHooks idleOps) (fun _ _ => True) (start holding)
      (holderRun [.marketEvent 1]) :=
    Runs.of_foldlM (l := [.marketEvent 1]) (ok_getD (by decide +kernel) (start holding))
      fun _ _ _ => trivial
  (elections_recorded_iff hrun).mpr (by decide +kernel)

/-- Elected on the announcement, an observation, the same choice is not in the log. -/
theorem election_on_announcement_lost :
    ∃ r, Runs (step holderHooks idleOps) (fun _ _ => True) (start holding) r ∧
      ¬ EveryElectionRecorded holderHooks holding r := by
  refine ⟨holderRun [.marketEvent 1, .observation 1 "AAPL" () 2], ?_, ?_⟩
  · exact Runs.of_foldlM (l := [.marketEvent 1, .observation 1 "AAPL" () 2])
      (ok_getD (by decide +kernel) (start holding)) fun _ _ _ => trivial
  · intro hrecorded
    have hcount := hrecorded (.electionMade 2 "alpha" "AAPL" "TENDER-1" 1) rfl
    exact absurd hcount (by decide +kernel)

end ElectionRun

end AlphaLab
