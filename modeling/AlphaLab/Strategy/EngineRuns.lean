/-
  Runs of the strategy engine (`strategy/engine.py`, `strategy/state.py`).

  * `Becomes` is what the engine may make of a strategy, with what it logs of it: the strategy
    stays, fails or stops;
  * `Chronicle` says it of every strategy at once, and composes (`Chronicle.trans`);
  * `calls_chronicle`: so it is over any calls, and the routing index stays that of the
    strategies.
-/
import AlphaLab.Strategy.Dispatch

namespace AlphaLab

variable {σ κ β : Type}

/-- The strategy that a transition is of. -/
def RuntimeEvent.moved : RuntimeEvent → Option String
  | lifecycleTransitioned _ id .. => some id
  | _ => none

def movesOf (id : String) (events : List RuntimeEvent) : List RuntimeEvent :=
  events.filter (·.moved = some id)

/-! ## One strategy -/

/-- What is logged of a strategy that goes from one status and error to another: nothing, its
    failure, or its stop. -/
inductive Moves (id : String) (status : StrategyStatus) (error : Option FailureReason) :
    StrategyStatus → Option FailureReason → List RuntimeEvent → Prop where
  | stays : Moves id status error status error []
  | fails (timestamp : Instant) (reason : FailureReason)
      (hactive : status = .running ∨ status = .paused) :
      Moves id status error .failed (some reason)
        [.lifecycleTransitioned timestamp id status .failed (some reason)]
  | stops (timestamp : Instant) (hactive : status = .running ∨ status = .paused) :
      Moves id status error .stopped error
        [.lifecycleTransitioned timestamp id status .stopping none,
          .lifecycleTransitioned timestamp id .stopping .stopped none]

section
variable {id : String} {a b c : StrategyStatus} {ea eb ec : Option FailureReason}
  {moves moves' : List RuntimeEvent}

theorem Moves.trans (h : Moves id a ea b eb moves) (h' : Moves id b eb c ec moves') :
    Moves id a ea c ec (moves ++ moves') := by
  cases h with
  | stays => exact h'
  | fails timestamp reason hactive =>
    -- a strategy that has failed is neither running nor paused
    cases h' with
    | stays => exact .fails timestamp reason hactive
    | fails _ _ hleft | stops _ hleft => simp at hleft
  | stops timestamp hactive =>
    cases h' with
    | stays => exact .stops timestamp hactive
    | fails _ _ hleft | stops _ hleft => simp at hleft

theorem Moves.of_id (h : Moves id a ea b eb moves) : ∀ e ∈ moves, e.moved = some id := by
  cases h <;> simp [RuntimeEvent.moved]

end

/-- `t` is what the engine may make of `s`, logging `moves` of it. -/
structure Becomes (id : String) (s t : StrategyState σ) (moves : List RuntimeEvent) : Prop where
  routing : t.routing = s.routing
  started : s.started = true → t.started = true
  moves : Moves id s.status s.lastError t.status t.lastError moves

namespace Becomes

variable {id : String} {s t u : StrategyState σ} {moves moves' : List RuntimeEvent}

theorem refl (s : StrategyState σ) : Becomes id s s [] := ⟨rfl, fun h => h, .stays⟩

theorem trans (h : Becomes id s t moves) (h' : Becomes id t u moves') :
    Becomes id s u (moves ++ moves') :=
  ⟨h'.routing.trans h.routing, h'.started ∘ h.started, h.moves.trans h'.moves⟩

end Becomes

/-- A call of `s` makes of it what the engine may. -/
def Called.Of (id : String) (s : StrategyState σ) (c : Called σ) : Prop :=
  Becomes id s c.strategy c.events

namespace Dispatcher

variable {h : StrategyHooks σ κ β} {s : StrategyState σ} {id : String} {timestamp : Instant}

theorem failed_of (hactive : s.status = .running ∨ s.status = .paused) (instance_ : σ)
    (error : FailureReason) :
    (failed { s with instance_ := instance_ } id error timestamp).Of id s :=
  ⟨rfl, fun h => h, .fails timestamp error hactive⟩

theorem start_of (s : StrategyState σ) (context : κ) :
    (start h s id context timestamp).Of id s := by
  unfold start
  split_ifs with hidle
  · exact .refl s
  · push Not at hidle
    obtain ⟨instance_, answer⟩ := h.onStart s.instance_ context
    cases answer with
    | error error => exact ⟨rfl, fun _ => rfl, .fails _ _ (Or.inl hidle.1)⟩
    | ok u => exact ⟨rfl, fun _ => rfl, .stays⟩

theorem kept_of (hactive : s.status = .running) (instance_ : σ)
    (answer : Except String (List Intent)) :
    (kept h { s with instance_ := instance_ } id answer timestamp).Of id s := by
  unfold kept
  cases answer with
  | error error => exact failed_of (Or.inl hactive) _ _
  | ok intents =>
    dsimp only
    cases intents.find? fun i => !validateIntent h.decimalOf i with
    | some i => exact failed_of (Or.inl hactive) _ _
    | none => exact ⟨rfl, fun h => h, .stays⟩

theorem dispatchEvent_of (s : StrategyState σ) (event : InboundEvent β) (context : κ) :
    (dispatchEvent h s id event context timestamp).Of id s := by
  unfold dispatchEvent
  split_ifs with hidle
  · exact .refl s
  · cases event.topic with
    | none => exact .refl s
    | some topic => exact kept_of (not_not.mp hidle) _ _

theorem stop_of (hactive : s.status = .running ∨ s.status = .paused) (context : κ) :
    (stop h s id context timestamp).Of id s := by
  unfold stop
  cases hanswer : (shutdown h s.instance_ context).2 with
  | error error =>
    simp only [hanswer]
    exact failed_of hactive _ _
  | ok intents =>
    simp only [hanswer]
    exact ⟨rfl, fun h => h, .stops timestamp hactive⟩

end Dispatcher

/-! ## All of them -/

/-- The events of a pass chronicle how the strategies became what they are: each, in its place,
    became what the moves logged of it say, and nothing else is logged. -/
structure Chronicle (held : Dict String (StrategyState σ)) (pass : StrategyEngine.Pass σ) :
    Prop where
  keys : pass.strategies.keys = held.keys
  known : ∀ e ∈ pass.events, ∃ id ∈ held.keys, e.moved = some id
  becomes : ∀ id s, held.get? id = some s →
    ∃ t, pass.strategies.get? id = some t ∧ Becomes id s t (movesOf id pass.events)

namespace Chronicle

variable {held : Dict String (StrategyState σ)} {pass next : StrategyEngine.Pass σ}

theorem refl (held : Dict String (StrategyState σ)) (intents : List Intent) :
    Chronicle held ⟨held, intents, []⟩ := ⟨rfl, by simp, fun _ s hs => ⟨s, hs, .refl s⟩⟩

theorem trans (h : Chronicle held pass) (h' : Chronicle pass.strategies next)
    (intents : List Intent) :
    Chronicle held ⟨next.strategies, intents, pass.events ++ next.events⟩ := by
  refine ⟨h'.keys.trans h.keys, ?_, ?_⟩
  · intro e he
    rcases List.mem_append.mp he with he | he
    · exact h.known e he
    · exact h.keys ▸ h'.known e he
  · intro id s hs
    obtain ⟨t, ht, hbecomes⟩ := h.becomes id s hs
    obtain ⟨u, hu, hbecomes'⟩ := h'.becomes id t ht
    refine ⟨u, hu, ?_⟩
    rw [movesOf, List.filter_append]
    exact hbecomes.trans hbecomes'

theorem add {id : String} {s : StrategyState σ} {c : Called σ} (hpass : Chronicle held pass)
    (hs : pass.strategies.get? id = some s) (hc : c.Of id s) : Chronicle held (pass.add id c) := by
  have hmem : id ∈ pass.strategies.keys := pass.strategies.mem_keys_iff.mpr ⟨s, hs⟩
  have hid := hc.moves.of_id
  have hadded : Chronicle pass.strategies ⟨pass.strategies.set id c.strategy, [], c.events⟩ := by
    refine ⟨by rw [Dict.keys_set, if_pos hmem], fun e he => ⟨id, hmem, hid e he⟩, ?_⟩
    intro other s' hs'
    rw [Dict.get?_set]
    split_ifs with hother
    · subst hother
      obtain rfl := Option.some.inj (hs.symm.trans hs')
      refine ⟨c.strategy, rfl, ?_⟩
      rwa [movesOf, List.filter_eq_self.mpr (by simpa using hid)]
    · refine ⟨s', hs', ?_⟩
      have hnone : movesOf other c.events = [] := by
        rw [movesOf, List.filter_eq_nil_iff]
        intro e he
        simp [hid e he, Ne.symm hother]
      rw [hnone]
      exact .refl s'
  exact hpass.trans hadded _

/-- The index built of the strategies as they became is the one built of them before. -/
theorem reach_eq {s t : RuntimeState σ} {events : List RuntimeEvent}
    (h : Chronicle s.strategies ⟨t.strategies, [], events⟩) : t.reach = s.reach := by
  have hroutes : ∀ u : RuntimeState σ, (u.strategies.entries.map fun e => (e.1, e.2.routing)) =
      u.strategies.keys.filterMap fun id =>
        (u.strategies.get? id).map fun entry => (id, entry.routing) := by
    intro u
    rw [u.strategies.entries_eq, List.map_filterMap]
    simp [Function.comp_def]
  rw [RuntimeState.reach, RuntimeState.reach, hroutes t, hroutes s, h.keys]
  refine congrArg _ (List.filterMap_congr fun id hid => ?_)
  obtain ⟨entry, hentry⟩ := s.strategies.mem_keys_iff.mp hid
  obtain ⟨entry', hentry', hbecomes⟩ := h.becomes id entry hentry
  simp [hentry, hentry', hbecomes.routing]

end Chronicle

namespace StrategyEngine

variable {h : StrategyHooks σ κ β} {held found : Dict String (StrategyState σ)} {pass : Pass σ}
  {contextOf : String → κ} {timestamp : Instant} {id : String}

theorem reach_chronicle (event : InboundEvent β) (hsame : pass.strategies.get? id = found.get? id)
    (hpass : Chronicle held pass) :
    Chronicle held (reach h event contextOf timestamp found pass id) := by
  unfold reach
  cases hget : found.get? id with
  | none => exact hpass
  | some s =>
    dsimp only
    split_ifs
    · exact hpass.add (hsame.trans hget)
        ((Dispatcher.start_of s _).trans (Dispatcher.dispatchEvent_of _ event _))
    · exact hpass

theorem foldl_reach_chronicle (event : InboundEvent β) {ids : List String} (hnodup : ids.Nodup)
    (hsame : ∀ i ∈ ids, pass.strategies.get? i = found.get? i) (hpass : Chronicle held pass) :
    Chronicle held (ids.foldl (reach h event contextOf timestamp found) pass) := by
  induction ids generalizing pass with
  | nil => exact hpass
  | cons i ids ih =>
    obtain ⟨hfresh, hnodup⟩ := List.nodup_cons.mp hnodup
    have hi := hsame i List.mem_cons_self
    refine ih hnodup (fun j hj => ?_) (reach_chronicle event hi hpass)
    have hne : j ≠ i := by
      rintro rfl
      exact hfresh hj
    rw [get?_reach contextOf timestamp event hi, if_neg hne]
    exact hsame j (List.mem_cons_of_mem i hj)

theorem address_chronicle (hpass : Chronicle held pass) (delivery : String × InboundEvent β) :
    Chronicle held (address h contextOf timestamp pass delivery) := by
  unfold address
  split_ifs
  · exact reach_chronicle _ rfl hpass
  · exact hpass

theorem stopOne_chronicle (hpass : Chronicle held pass) (id : String) :
    Chronicle held (stopOne h contextOf timestamp pass id) := by
  unfold stopOne
  cases hget : pass.strategies.get? id with
  | none => exact hpass
  | some s =>
    dsimp only
    split_ifs with hactive
    · exact hpass.add hget (Dispatcher.stop_of hactive _)
    · exact hpass

/-- A call of the engine. -/
inductive EngineCall (κ β : Type) where
  | processEvent (event : InboundEvent β) (contextOf : String → κ) (timestamp : Instant)
  | deliver (deliveries : List (String × InboundEvent β)) (contextOf : String → κ)
      (timestamp : Instant)
  | stop (contextOf : String → κ) (timestamp : Instant) (strategyIds : Option (List String))

def answer (h : StrategyHooks σ κ β) (s : RuntimeState σ) :
    EngineCall κ β → RuntimeState σ × List Intent
  | .processEvent event contextOf timestamp => processEvent h s event contextOf timestamp
  | .deliver deliveries contextOf timestamp => deliver h s deliveries contextOf timestamp
  | .stop contextOf timestamp strategyIds => stop h s contextOf timestamp strategyIds

theorem answer_chronicle (s : RuntimeState σ) (call : EngineCall κ β) :
    ∃ pass, answer h s call = pass.finish s ∧ Chronicle s.strategies pass := by
  have hstart : Chronicle s.strategies (.start s) := .refl _ _
  cases call with
  | processEvent event contextOf timestamp =>
    rw [answer, processEvent]
    cases event.topic with
    | none => exact ⟨.start s, by simp [Pass.start, Pass.finish], hstart⟩
    | some topic =>
      exact ⟨_, rfl,
        foldl_reach_chronicle event (reaching_nodup s _ _) (fun _ _ => rfl) hstart⟩
  | deliver deliveries contextOf timestamp =>
    exact ⟨_, rfl, List.foldlRecOn (motive := Chronicle s.strategies) _ _ hstart
      fun _ hpass delivery _ => address_chronicle hpass delivery⟩
  | stop contextOf timestamp strategyIds =>
    exact ⟨_, rfl, List.foldlRecOn (motive := Chronicle s.strategies) _ _ hstart
      fun _ hpass id _ => stopOne_chronicle hpass id⟩

/-- **Over any calls of the engine the log chronicles every strategy**, each staying, failing
    once or stopping once, and the routing index is still that of the strategies. -/
theorem calls_chronicle (h : StrategyHooks σ κ β) (s : RuntimeState σ)
    (calls : List (EngineCall κ β)) :
    (calls.foldl (fun s call => (answer h s call).1) s).reach = s.reach ∧
      ∃ events, (calls.foldl (fun s call => (answer h s call).1) s).events = s.events ++ events ∧
        Chronicle s.strategies
          ⟨(calls.foldl (fun s call => (answer h s call).1) s).strategies, [], events⟩ := by
  induction calls using List.reverseRecOn with
  | nil => exact ⟨rfl, [], (List.append_nil _).symm, .refl _ _⟩
  | append_singleton calls call ih =>
    rw [List.foldl_append, List.foldl_cons, List.foldl_nil]
    generalize calls.foldl (fun s call => (answer h s call).1) s = t at ih ⊢
    obtain ⟨-, events, hevents, hchronicle⟩ := ih
    obtain ⟨pass, hpass, hcall⟩ := answer_chronicle (h := h) t call
    rw [hpass]
    have hrun : Chronicle s.strategies ⟨pass.strategies, [], events ++ pass.events⟩ :=
      hchronicle.trans hcall []
    refine ⟨hrun.reach_eq (t := (pass.finish t).1), _, ?_, hrun⟩
    rw [Pass.finish, hevents, List.append_assoc]

end StrategyEngine

end AlphaLab
