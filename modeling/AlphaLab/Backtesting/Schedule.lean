/-
  Timed inputs and the cursor that applies them (`backtesting/schedule.py`).

  * `RunSchedule` holds every timed input of a run in the order they are applied, no two alike;
  * `ScheduleCursor` is where a run stands in it: `start` finds the place by binary search,
    `before` and `finish` apply what is due through the run's own operations (`RunOps`).

  A drive also keeps, in the order they happen, what was applied and what was processed.
-/
import AlphaLab.Lib.Bisect
import AlphaLab.Market.Stream
import AlphaLab.Portfolio.State

namespace AlphaLab

open Fallible

/-! ## Entries -/

inductive SchedulePlace where
  | beforeRecords
  | records
  | afterRecords
deriving DecidableEq

def SchedulePlace.toNat : SchedulePlace → ℕ
  | beforeRecords => 0
  | records => 1
  | afterRecords => 2

inductive ScheduleKind where
  | rate
  | funding
  | cashFlow
  | distribution
  | fundingRate
  | split
  | observation
  | timer
  | exercise
  | assignment
  | expiry
  | settlement
  | accrual
  | interest
  | borrowFee
  | exchange
  | payment
  | record
  | surface
  | auction
deriving DecidableEq

namespace ScheduleKind

def place : ScheduleKind → SchedulePlace
  | rate | funding | cashFlow | distribution | fundingRate | split | exchange | payment | surface
  | auction => .beforeRecords
  | observation | timer | exercise | assignment | expiry | settlement | accrual | interest
  | borrowFee | record => .afterRecords

def rank (kind : ScheduleKind) : ℕ := kind.ctorIdx

theorem place_ne_records (kind : ScheduleKind) : kind.place ≠ .records := by cases kind <;> decide

end ScheduleKind

/-- `ScheduleEntry`: a rate, or another input of its kind. -/
structure ScheduleEntry (ι : Type) where
  at_ : Instant
  kind : ScheduleKind
  identity : String
  item : FxRate ⊕ ι
  rated : item.isLeft ↔ kind = .rate

namespace ScheduleEntry

variable {ι : Type} (e : ScheduleEntry ι)

/-- The first two parts of `key`: the instant, and the place at it. -/
def slot : Instant ×ₗ ℕ := toLex (e.at_, e.kind.place.toNat)

def key : (Instant ×ₗ ℕ) ×ₗ ℕ ×ₗ String := toLex (e.slot, toLex (e.kind.rank, e.identity))

end ScheduleEntry

def boundary (timestamp : Instant) : Instant ×ₗ ℕ := toLex (timestamp, SchedulePlace.records.toNat)

/-! ## Schedules -/

def ScheduleEntry.onRates {ι : Type} (table : FxRates) (e : ScheduleEntry ι) : FxRates :=
  e.item.elim table.withRate fun _ => table

structure RunSchedule (ι : Type) where
  entries : List (ScheduleEntry ι)
  rateMaxAgeSeconds : Option Instant
  ordered : entries.Pairwise fun a b => a.key < b.key

namespace RunSchedule

variable {ι : Type} (schedule : RunSchedule ι)

def positionAfter : Option Instant → ℕ
  | none => 0
  | some after => bisect schedule.entries fun e => e.slot < boundary after

def ratesThrough (position : ℕ) : FxRates :=
  (schedule.entries.take position).foldl ScheduleEntry.onRates
    { maxAgeSeconds := schedule.rateMaxAgeSeconds }

end RunSchedule

structure ScheduleCursor (ι : Type) where
  schedule : RunSchedule ι
  position : ℕ
  rates : FxRates

namespace ScheduleCursor

variable {ι : Type}

def start (schedule : RunSchedule ι) (after : Option Instant) : ScheduleCursor ι :=
  ⟨schedule, schedule.positionAfter after, schedule.ratesThrough (schedule.positionAfter after)⟩

def pending (cursor : ScheduleCursor ι) : List (ScheduleEntry ι) :=
  cursor.schedule.entries.drop cursor.position

end ScheduleCursor

/-! ## Runs -/

inductive OrderingGuarantee where
  | chronological
  | unordered
deriving DecidableEq

/-- What the loop reads and moves of a run: its pipeline `σ`, and the last record it processed. -/
structure RunState (σ : Type) where
  pipeline : σ
  ordering : OrderingGuarantee
  lastRecordTimestamp : Option Instant

inductive RunRefusal (ε : Type) where
  | regresses (eventId : String)
  | raised (e : ε)

/-- The run's own operations: `close_slice` before an instant, an input applied through the
    operation of its kind, the price gate, and a record processed. -/
structure RunOps (σ ι α ε : Type) where
  closeSlice : Instant → FxRates → σ → Except (RunRefusal ε) σ
  applyInput : ι → FxRates → σ → Except (RunRefusal ε) σ
  priceRefused : MarketRecord α → Bool
  processRecord : MarketRecord α → FxRates → σ → Except (RunRefusal ε) σ

inductive Happened (ι α : Type) where
  | applied (e : ScheduleEntry ι)
  | processed (r : MarketRecord α)

/-- A run with its cursor, the last record it was handed, and what happened. -/
structure Drive (σ ι α : Type) where
  cursor : ScheduleCursor ι
  run : RunState σ
  last : Option Instant
  journal : List (Happened ι α)

namespace Drive

variable {σ ι α ε : Type} (ops : RunOps σ ι α ε)

def fresh (schedule : RunSchedule ι) (pipeline : σ) (ordering : OrderingGuarantee) : Drive σ ι α :=
  ⟨.start schedule none, ⟨pipeline, ordering, none⟩, none, []⟩

/-- `_apply`, of what is not a rate. -/
def applyItem (rates : FxRates) (pipeline : σ) : FxRate ⊕ ι → Except (RunRefusal ε) σ
  | .inl _ => .ok pipeline
  | .inr input => ops.applyInput input rates pipeline

def applyEntry (e : ScheduleEntry ι) (d : Drive σ ι α) : Except (RunRefusal ε) (Drive σ ι α) := do
  -- the slice of an instant closes before anything later than it
  let closed ← ops.closeSlice e.at_ d.cursor.rates d.run.pipeline
  let pipeline ← applyItem ops d.cursor.rates closed e.item
  .ok { d with
    cursor := ⟨d.cursor.schedule, d.cursor.position + 1, e.onRates d.cursor.rates⟩
    run := { d.run with pipeline := pipeline }
    journal := d.journal ++ [.applied e] }

def applyWhile (due : ScheduleEntry ι → Bool) : List (ScheduleEntry ι) → Drive σ ι α →
    Except (RunRefusal ε) (Drive σ ι α)
  | [], d => .ok d
  | e :: pending, d =>
    if due e then do
      let d ← d.applyEntry ops e
      applyWhile due pending d
    else .ok d

def before (timestamp : Instant) (d : Drive σ ι α) : Except (RunRefusal ε) (Drive σ ι α) :=
  applyWhile ops (fun e => e.slot < boundary timestamp) d.cursor.pending d

/-- `finish`, at the end of the data: `given` is the last record's timestamp where the driver
    passes it. -/
def finish (given : Option Instant) (d : Drive σ ι α) : Except (RunRefusal ε) (Drive σ ι α) :=
  match given.or d.run.lastRecordTimestamp with
  | none => .ok d
  | some last => applyWhile ops (fun e => e.at_ ≤ last) d.cursor.pending d

def InOrder (r : MarketRecord α) (d : Drive σ ι α) : Prop :=
  ∀ previous ∈ d.run.lastRecordTimestamp, previous ≤ r.timestamp

instance (r : MarketRecord α) (d : Drive σ ι α) : Decidable (d.InOrder r) :=
  inferInstanceAs (Decidable (∀ previous ∈ d.run.lastRecordTimestamp, _))

def advance (r : MarketRecord α) (d : Drive σ ι α) : Except (RunRefusal ε) (Drive σ ι α) :=
  if d.InOrder r then
    if ops.priceRefused r then .ok d
    else do
      let pipeline ← ops.processRecord r d.cursor.rates d.run.pipeline
      .ok { d with
        run := { d.run with pipeline := pipeline, lastRecordTimestamp := some r.timestamp }
        journal := d.journal ++ [.processed r] }
  else if d.run.ordering = .chronological then .error (.regresses r.eventId)
  else .ok d

def hand (r : MarketRecord α) (d : Drive σ ι α) : Except (RunRefusal ε) (Drive σ ι α) := do
  let d ← d.before ops r.timestamp
  let closed ← ops.closeSlice r.timestamp d.cursor.rates d.run.pipeline
  let d ← { d with run := { d.run with pipeline := closed } }.advance ops r
  .ok { d with last := some r.timestamp }

/-- An interruption: the cursor is built anew from the last record's timestamp. -/
def interrupted (d : Drive σ ι α) : Drive σ ι α :=
  { d with cursor := .start d.cursor.schedule d.last }

inductive Step (α : Type) where
  | hand (r : MarketRecord α)
  | interrupt

def step (d : Drive σ ι α) : Step α → Except (RunRefusal ε) (Drive σ ι α)
  | .hand r => d.hand ops r
  | .interrupt => .ok d.interrupted

/-- The loop, and the end of the data: `passesLast` where the driver passes the last record's
    timestamp. -/
def drive (passesLast : Bool) (steps : List (Step α)) (d : Drive σ ι α) :
    Except (RunRefusal ε) (Drive σ ι α) := do
  let d ← steps.foldlM (step ops) d
  d.finish ops (if passesLast then d.last else none)

end Drive

end AlphaLab
