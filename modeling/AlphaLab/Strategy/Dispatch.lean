/-
  Dispatch of events to the strategies (`strategy/validation.py`,
  `strategy/supervisor.py`, `strategy/dispatcher.py`, `strategy/engine.py`).

  * a strategy's hooks are functions of the strategy: each returns it as the call leaves it,
    and either its intents or what it raised (`StrategyHooks`);
  * `Dispatcher.start`, `dispatchEvent` and `stop` call a strategy, and fail it where a hook
    raises or an intent is malformed;
  * `StrategyEngine.processEvent`, `deliver` and `stop` go through the strategies: every
    intent they return is well formed, and they log no election (`processEvent_spec`,
    `deliver_spec`, `stop_spec`); an event calls each strategy that subscribed to it once
    (`processEvent_calls`).
-/
import AlphaLab.Strategy.Runtime

namespace AlphaLab

def isIntegral (x : Decimal) : Bool := x.den = 1

/-- `validate_intent`: `decimalOf` reads a text as a `Decimal`. -/
def validateIntent (decimalOf : String → Option Decimal) (i : Intent) : Bool :=
  i.isValid && match i.kind with
    | .delta | .targetQuantity | .targetWeight => true
    | .exercise => 0 < i.target && isIntegral i.target && i.strength = 1 && i.terms = marketTerms
    | .cancel => i.target = 0 && i.strength = 1 && i.terms = marketTerms
    | .elect =>
      0 ≤ i.target && isIntegral i.target && (i.metadata.get? "action").any (· ≠ "") &&
        (i.metadata.get? "units").all (fun units => (decimalOf units).any (0 < ·)) &&
        i.strength = 1 && i.terms = marketTerms
    | .amend => 0 < i.target && i.strength = 1

/-- The hooks of the strategies.  `on` is the hook of a topic; one that a strategy does not
    define asks for nothing. -/
structure StrategyHooks (σ κ β : Type) where
  onStart : σ → κ → σ × Except String Unit
  on : Topic → σ → κ → β → σ × Except String (List Intent)
  onShutdown : σ → κ → σ × Except String (List Intent)
  onStop : σ → κ → σ × Except String Unit
  definesOnSlice : σ → Bool
  definesOnObservation : σ → Bool
  decimalOf : String → Option Decimal

variable {σ κ β : Type}

namespace RuntimeSupervisor

def moveTo (s : StrategyState σ) (id : String) (status : StrategyStatus)
    (reason : Option FailureReason) (timestamp : Instant) : StrategyState σ × RuntimeEvent :=
  ({ s with status := status },
    .lifecycleTransitioned timestamp id s.status status reason)

def fail (s : StrategyState σ) (id : String) (error : FailureReason) (timestamp : Instant) :
    StrategyState σ × RuntimeEvent :=
  moveTo { s with lastError := some error } id .failed (some error) timestamp

/-- `stop`, and `complete_drain` after it. -/
def stopAndDrain (s : StrategyState σ) (id : String) (timestamp : Instant) :
    StrategyState σ × List RuntimeEvent :=
  let (stopping, first) := moveTo s id .stopping none timestamp
  let (stopped, second) := moveTo stopping id .stopped none timestamp
  (stopped, [first, second])

end RuntimeSupervisor

/-! ## One strategy -/

/-- What a call of a strategy leaves: the strategy, what it asks for, and what is logged. -/
structure Called (σ : Type) where
  strategy : StrategyState σ
  intents : List Intent
  events : List RuntimeEvent

namespace Called

/-- Only well-formed intents leave a strategy, and no election is logged by calling one. -/
structure Sound (decimalOf : String → Option Decimal) (c : Called σ) : Prop where
  valid : ∀ i ∈ c.intents, validateIntent decimalOf i = true
  noElection : ∀ e ∈ c.events, e.isElection = false

end Called

namespace Dispatcher

variable (h : StrategyHooks σ κ β)

def failed (s : StrategyState σ) (id : String) (error : FailureReason) (timestamp : Instant) :
    Called σ :=
  let (s, event) := RuntimeSupervisor.fail s id error timestamp
  ⟨s, [], [event]⟩

def start (s : StrategyState σ) (id : String) (context : κ) (timestamp : Instant) : Called σ :=
  if s.status ≠ .running ∨ s.started then ⟨s, [], []⟩
  else
    let (instance_, answer) := h.onStart s.instance_ context
    let s := { s with instance_ := instance_, started := true }
    match answer with
    | .error error => failed s id (.onStart error) timestamp
    | .ok () => ⟨s, [], []⟩

def kept (s : StrategyState σ) (id : String) (answer : Except String (List Intent))
    (timestamp : Instant) : Called σ :=
  match answer with
  | .error error => failed s id (.hook error) timestamp
  | .ok intents =>
    match intents.find? fun i => !validateIntent h.decimalOf i with
    | some i => failed s id (.invalidIntent i) timestamp
    | none => ⟨s, intents, []⟩

def dispatchEvent (s : StrategyState σ) (id : String) (event : InboundEvent β) (context : κ)
    (timestamp : Instant) : Called σ :=
  if s.status ≠ .running then ⟨s, [], []⟩
  else
    match event.topic with
    | none => ⟨s, [], []⟩
    | some (topic, _) =>
      let (instance_, answer) := h.on topic s.instance_ context event.body
      kept h { s with instance_ := instance_ } id answer timestamp

/-- `on_shutdown` and, if its intents are well formed, `on_stop`. -/
def shutdown (instance_ : σ) (context : κ) : σ × Except FailureReason (List Intent) :=
  let (instance_, answer) := h.onShutdown instance_ context
  match answer with
  | .error error => (instance_, .error (.stopping error))
  | .ok intents =>
    match intents.find? fun i => !validateIntent h.decimalOf i with
    | some i => (instance_, .error (.invalidIntent i))
    | none =>
      let (instance_, stopped) := h.onStop instance_ context
      (instance_, (stopped.map fun _ => intents).mapError .stopping)

def stop (s : StrategyState σ) (id : String) (context : κ) (timestamp : Instant) : Called σ :=
  let (instance_, answer) := shutdown h s.instance_ context
  let s := { s with instance_ := instance_ }
  match answer with
  | .error error => failed s id error timestamp
  | .ok intents =>
    let (stopped, events) := RuntimeSupervisor.stopAndDrain s id timestamp
    ⟨stopped, intents, events⟩

/-- A strategy that runs, called with an event: `on_start` first if it has not had it. -/
def call (s : StrategyState σ) (id : String) (event : InboundEvent β) (context : κ)
    (timestamp : Instant) : Called σ :=
  let started := start h s id context timestamp
  let dispatched := dispatchEvent h started.strategy id event context timestamp
  ⟨dispatched.strategy, dispatched.intents, started.events ++ dispatched.events⟩

end Dispatcher

/-! ## The engine -/

namespace StrategyEngine

variable (h : StrategyHooks σ κ β)

structure Pass (σ : Type) where
  strategies : Dict String (StrategyState σ)
  intents : List Intent
  events : List RuntimeEvent

namespace Pass

def start (s : RuntimeState σ) : Pass σ := ⟨s.strategies, [], []⟩

def add (pass : Pass σ) (id : String) (c : Called σ) : Pass σ :=
  ⟨pass.strategies.set id c.strategy, pass.intents ++ c.intents, pass.events ++ c.events⟩

/-- `evolved`: the strategies as the pass leaves them, and its events in the log. -/
def finish (pass : Pass σ) (s : RuntimeState σ) : RuntimeState σ × List Intent :=
  (⟨pass.strategies, s.events ++ pass.events⟩, pass.intents)

end Pass

def reach (event : InboundEvent β) (contextOf : String → κ) (timestamp : Instant)
    (held : Dict String (StrategyState σ)) (pass : Pass σ) (id : String) : Pass σ :=
  match held.get? id with
  | none => pass
  | some s =>
    if s.status = .running then
      pass.add id (Dispatcher.call h s id event (contextOf id) timestamp)
    else pass

def processEvent (s : RuntimeState σ) (event : InboundEvent β) (contextOf : String → κ)
    (timestamp : Instant) : RuntimeState σ × List Intent :=
  match event.topic with
  | none => (s, [])
  | some (topic, assetId) =>
    ((s.reach.reaching topic assetId).foldl (reach h event contextOf timestamp s.strategies)
      (.start s)).finish s

/-- An event addressed to one strategy, which receives it if it subscribed to its topic. -/
def address (contextOf : String → κ) (timestamp : Instant) (pass : Pass σ)
    (delivery : String × InboundEvent β) : Pass σ :=
  if (pass.strategies.get? delivery.1).any fun s =>
      delivery.2.topic.any fun topic => s.routing.accepts topic.1 topic.2 then
    reach h delivery.2 contextOf timestamp pass.strategies pass delivery.1
  else pass

def deliver (s : RuntimeState σ) (deliveries : List (String × InboundEvent β))
    (contextOf : String → κ) (timestamp : Instant) : RuntimeState σ × List Intent :=
  (deliveries.foldl (address h contextOf timestamp) (.start s)).finish s

def stopOne (contextOf : String → κ) (timestamp : Instant) (pass : Pass σ) (id : String) :
    Pass σ :=
  match pass.strategies.get? id with
  | none => pass
  | some s =>
    if s.status = .running ∨ s.status = .paused then
      pass.add id (Dispatcher.stop h s id (contextOf id) timestamp)
    else pass

def stop (s : RuntimeState σ) (contextOf : String → κ) (timestamp : Instant)
    (strategyIds : Option (List String)) : RuntimeState σ × List Intent :=
  ((strategyIds.getD s.strategies.keys).foldl (stopOne h contextOf timestamp) (.start s)).finish s

end StrategyEngine

/-! ## What leaves the strategies -/

section
variable {h : StrategyHooks σ κ β}

variable {intents : List Intent}

theorem all_valid_of_find {decimalOf : String → Option Decimal}
    (hfind : (intents.find? fun i => !validateIntent decimalOf i) = none) :
    ∀ i ∈ intents, validateIntent decimalOf i = true := by
  intro i hi
  simpa using List.find?_eq_none.mp hfind i hi

namespace Dispatcher

variable {s : StrategyState σ} {id : String} {context : κ} {timestamp : Instant}

theorem failed_sound (decimalOf : String → Option Decimal) (s : StrategyState σ) (id : String)
    (error : FailureReason) (timestamp : Instant) :
    (failed s id error timestamp).Sound decimalOf := by
  constructor
  · simp [failed]
  · simp [failed, RuntimeSupervisor.fail, RuntimeSupervisor.moveTo, RuntimeEvent.isElection]

theorem idle_sound (decimalOf : String → Option Decimal) (s : StrategyState σ) :
    (⟨s, [], []⟩ : Called σ).Sound decimalOf := ⟨by simp, by simp⟩

theorem start_sound (s : StrategyState σ) (id : String) (context : κ) (timestamp : Instant) :
    (start h s id context timestamp).Sound h.decimalOf ∧
      (start h s id context timestamp).intents = [] := by
  unfold start
  split_ifs
  · exact ⟨idle_sound _ s, rfl⟩
  · obtain ⟨instance_, answer⟩ := h.onStart s.instance_ context
    cases answer with
    | error error => exact ⟨failed_sound _ _ _ _ _, rfl⟩
    | ok u => exact ⟨idle_sound _ _, rfl⟩

theorem kept_sound (s : StrategyState σ) (id : String) (answer : Except String (List Intent))
    (timestamp : Instant) : (kept h s id answer timestamp).Sound h.decimalOf := by
  unfold kept
  cases answer with
  | error error => exact failed_sound _ _ _ _ _
  | ok intents =>
    cases hfind : intents.find? fun i => !validateIntent h.decimalOf i with
    | some i =>
      simp only [hfind]
      exact failed_sound _ _ _ _ _
    | none =>
      simp only [hfind]
      exact ⟨all_valid_of_find hfind, by simp⟩

theorem dispatchEvent_sound (s : StrategyState σ) (id : String) (event : InboundEvent β)
    (context : κ) (timestamp : Instant) :
    (dispatchEvent h s id event context timestamp).Sound h.decimalOf := by
  unfold dispatchEvent
  split_ifs
  · exact idle_sound _ s
  · cases event.topic with
    | none => exact idle_sound _ s
    | some topic => exact kept_sound _ _ _ _

theorem shutdown_valid {instance_ : σ} (hok : (shutdown h instance_ context).2 = .ok intents) :
    ∀ i ∈ intents, validateIntent h.decimalOf i = true := by
  unfold shutdown at hok
  cases hanswer : (h.onShutdown instance_ context).2 with
  | error error => simp [hanswer] at hok
  | ok asked =>
    simp only [hanswer] at hok
    cases hfind : asked.find? fun i => !validateIntent h.decimalOf i with
    | some i => simp [hfind] at hok
    | none =>
      simp only [hfind] at hok
      cases hstop : (h.onStop (h.onShutdown instance_ context).1 context).2 with
      | error error => simp [hstop, Except.map, Except.mapError] at hok
      | ok u =>
        simp only [hstop, Except.map, Except.mapError, Except.ok.injEq] at hok
        exact hok ▸ all_valid_of_find hfind

theorem stop_sound (s : StrategyState σ) (id : String) (context : κ) (timestamp : Instant) :
    (stop h s id context timestamp).Sound h.decimalOf := by
  unfold stop
  cases hanswer : (shutdown h s.instance_ context).2 with
  | error error =>
    simp only [hanswer]
    exact failed_sound _ _ _ _ _
  | ok intents =>
    simp only [hanswer]
    refine ⟨shutdown_valid hanswer, ?_⟩
    simp [RuntimeSupervisor.stopAndDrain, RuntimeSupervisor.moveTo, RuntimeEvent.isElection]

theorem call_sound (s : StrategyState σ) (id : String) (event : InboundEvent β) (context : κ)
    (timestamp : Instant) : (call h s id event context timestamp).Sound h.decimalOf := by
  have hdispatched := dispatchEvent_sound (h := h) (start h s id context timestamp).strategy id
    event context timestamp
  refine ⟨hdispatched.valid, ?_⟩
  intro e he
  rcases List.mem_append.mp he with he | he
  · exact (start_sound (h := h) s id context timestamp).1.noElection e he
  · exact hdispatched.noElection e he

end Dispatcher

namespace StrategyEngine

structure Pass.Sound (decimalOf : String → Option Decimal) (pass : Pass σ) : Prop where
  valid : ∀ i ∈ pass.intents, validateIntent decimalOf i = true
  noElection : ∀ e ∈ pass.events, e.isElection = false

variable {pass : Pass σ}

namespace Pass

variable {decimalOf : String → Option Decimal}

theorem start_sound (s : RuntimeState σ) : (start s).Sound decimalOf :=
  ⟨by simp [start], by simp [start]⟩

theorem Sound.add {c : Called σ} (hpass : pass.Sound decimalOf) (hc : c.Sound decimalOf)
    (id : String) : (pass.add id c).Sound decimalOf := by
  constructor
  · intro i hi
    rcases List.mem_append.mp hi with hi | hi
    · exact hpass.valid i hi
    · exact hc.valid i hi
  · intro e he
    rcases List.mem_append.mp he with he | he
    · exact hpass.noElection e he
    · exact hc.noElection e he

theorem Sound.finish (hpass : pass.Sound decimalOf) (s : RuntimeState σ) :
    (∀ i ∈ (pass.finish s).2, validateIntent decimalOf i = true) ∧
      (pass.finish s).1.elections = s.elections := by
  refine ⟨hpass.valid, ?_⟩
  have hnone : pass.events.filter RuntimeEvent.isElection = [] := by
    rw [List.filter_eq_nil_iff]
    intro e he
    simp [hpass.noElection e he]
  simp [Pass.finish, RuntimeState.elections, hnone]

theorem Sound.foldl {ι : Type} {f : Pass σ → ι → Pass σ}
    (hf : ∀ pass i, pass.Sound decimalOf → (f pass i).Sound decimalOf) :
    ∀ (l : List ι) {pass : Pass σ}, pass.Sound decimalOf → (l.foldl f pass).Sound decimalOf
  | [], _, hpass => hpass
  | i :: l, pass, hpass => Sound.foldl hf l (hf pass i hpass)

end Pass

variable {contextOf : String → κ} {timestamp : Instant}

variable (event : InboundEvent β)

theorem reach_sound (held : Dict String (StrategyState σ)) (pass : Pass σ) (id : String)
    (hpass : pass.Sound h.decimalOf) :
    (reach h event contextOf timestamp held pass id).Sound h.decimalOf := by
  unfold reach
  cases held.get? id with
  | none => exact hpass
  | some s =>
    dsimp only
    split_ifs
    · exact hpass.add (Dispatcher.call_sound s id event _ timestamp) id
    · exact hpass

theorem address_sound (pass : Pass σ) (delivery : String × InboundEvent β)
    (hpass : pass.Sound h.decimalOf) :
    (address h contextOf timestamp pass delivery).Sound h.decimalOf := by
  unfold address
  split_ifs
  · exact reach_sound _ _ _ _ hpass
  · exact hpass

theorem stopOne_sound (pass : Pass σ) (id : String) (hpass : pass.Sound h.decimalOf) :
    (stopOne h contextOf timestamp pass id).Sound h.decimalOf := by
  unfold stopOne
  cases pass.strategies.get? id with
  | none => exact hpass
  | some s =>
    dsimp only
    split_ifs
    · exact hpass.add (Dispatcher.stop_sound s id _ timestamp) id
    · exact hpass

variable (contextOf timestamp)

theorem processEvent_spec (s : RuntimeState σ) (event : InboundEvent β) :
    (∀ i ∈ (processEvent h s event contextOf timestamp).2, validateIntent h.decimalOf i = true) ∧
      (processEvent h s event contextOf timestamp).1.elections = s.elections := by
  unfold processEvent
  cases event.topic with
  | none => exact ⟨by simp, rfl⟩
  | some topic =>
    exact (Pass.Sound.foldl (reach_sound event s.strategies) _ (Pass.start_sound s)).finish s

theorem deliver_spec (s : RuntimeState σ) (deliveries : List (String × InboundEvent β)) :
    (∀ i ∈ (deliver h s deliveries contextOf timestamp).2,
        validateIntent h.decimalOf i = true) ∧
      (deliver h s deliveries contextOf timestamp).1.elections = s.elections :=
  (Pass.Sound.foldl address_sound deliveries (Pass.start_sound s)).finish s

theorem stop_spec (s : RuntimeState σ) (strategyIds : Option (List String)) :
    (∀ i ∈ (stop h s contextOf timestamp strategyIds).2, validateIntent h.decimalOf i = true) ∧
      (stop h s contextOf timestamp strategyIds).1.elections = s.elections :=
  (Pass.Sound.foldl stopOne_sound _ (Pass.start_sound s)).finish s

def calledWith (h : StrategyHooks σ κ β) (event : InboundEvent β) (contextOf : String → κ)
    (timestamp : Instant) (id : String) (s : StrategyState σ) : StrategyState σ :=
  if s.status = .running then (Dispatcher.call h s id event (contextOf id) timestamp).strategy
  else s

variable {held : Dict String (StrategyState σ)}

theorem get?_reach {id other : String} (hsame : pass.strategies.get? id = held.get? id) :
    (reach h event contextOf timestamp held pass id).strategies.get? other =
      if other = id then (held.get? id).map (calledWith h event contextOf timestamp id)
      else pass.strategies.get? other := by
  unfold reach
  cases hget : held.get? id with
  | none =>
    by_cases hother : other = id
    · subst hother
      simp [hsame, hget]
    · simp [hother]
  | some s =>
    by_cases hrunning : s.status = .running
    · simp only [hrunning, if_true, Pass.add, Dict.get?_set, Option.map_some, calledWith]
    · simp only [hrunning, if_false, Option.map_some, calledWith]
      by_cases hother : other = id
      · subst hother
        simp [hsame, hget]
      · simp [hother]

theorem get?_foldl_reach {ids : List String} {id : String} (hnodup : ids.Nodup)
    (hsame : ∀ i ∈ ids, pass.strategies.get? i = held.get? i) :
    (ids.foldl (reach h event contextOf timestamp held) pass).strategies.get? id =
      if id ∈ ids then (held.get? id).map (calledWith h event contextOf timestamp id)
      else pass.strategies.get? id := by
  induction ids generalizing pass with
  | nil => simp
  | cons i ids ih =>
    obtain ⟨hfresh, hnodup⟩ := List.nodup_cons.mp hnodup
    have hone : ∀ other, (reach h event contextOf timestamp held pass i).strategies.get? other =
        if other = i then (held.get? i).map (calledWith h event contextOf timestamp i)
        else pass.strategies.get? other := by
      intro other
      exact get?_reach contextOf timestamp event (hsame i (by simp))
    rw [List.foldl_cons, ih hnodup, hone]
    · by_cases hid : id = i
      · subst hid
        simp [hfresh]
      · simp [hid]
    · intro j hj
      have hne : j ≠ i := by
        rintro rfl
        exact hfresh hj
      rw [hone, if_neg hne]
      exact hsame j (by simp [hj])

theorem reaching_nodup (s : RuntimeState σ) (topic : Topic) (assetId : Option String) :
    (s.reach.reaching topic assetId).Nodup := by
  rw [RuntimeState.reach, RoutingIndex.reaching_of]
  refine (List.filter_sublist.map _).nodup ?_
  simpa [Function.comp_def] using s.strategies.nodup

/-- **An event calls each running strategy that subscribed to it once**, and leaves the
    others as they were. -/
theorem processEvent_calls (s : RuntimeState σ) (topic : Topic) (assetId : Option String)
    (body : β) (id : String) :
    (processEvent h s ⟨some (topic, assetId), body⟩ contextOf timestamp).1.strategies.get? id =
      (s.strategies.get? id).map fun entry =>
        if entry.routing.accepts topic assetId then
          calledWith h ⟨some (topic, assetId), body⟩ contextOf timestamp id entry
        else entry := by
  have hmem : id ∈ s.reach.reaching topic assetId ↔
      ∃ entry, s.strategies.get? id = some entry ∧ entry.routing.accepts topic assetId = true := by
    rw [RuntimeState.reach, RoutingIndex.reaching_of]
    simp [Dict.get?_eq_some]
  change ((s.reach.reaching topic assetId).foldl (reach h ⟨some (topic, assetId), body⟩
    contextOf timestamp s.strategies) (.start s)).strategies.get? id = _
  have hstart : ∀ i ∈ s.reach.reaching topic assetId,
      (Pass.start s).strategies.get? i = s.strategies.get? i := fun _ _ => rfl
  rw [get?_foldl_reach contextOf timestamp _ (reaching_nodup s topic assetId) hstart]
  cases hget : s.strategies.get? id with
  | none => simp [Pass.start, hget]
  | some entry =>
    by_cases haccepts : entry.routing.accepts topic assetId = true
    · rw [if_pos (hmem.mpr ⟨entry, hget, haccepts⟩)]
      simp [haccepts]
    · rw [if_neg ?_]
      · simp [Pass.start, hget, haccepts]
      · intro hin
        obtain ⟨other, hother, hyes⟩ := hmem.mp hin
        rw [Option.some.inj (hget.symm.trans hother)] at haccepts
        exact haccepts hyes

end StrategyEngine

end

end AlphaLab
