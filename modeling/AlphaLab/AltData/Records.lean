/-
  Records of external information and when they are knowable (`common/point_in_time.py`,
  `alt_data/observation_set.py`).

  * `PointInTimeStamp.knownAt` is the instant a record becomes visible under a rule;
  * `SetRecord` is what a record must offer to live in a set, of whatever kind it is;
  * `position` orders the records of a set, `knowledge` those of an index.
-/
import Mathlib.Data.String.Basic
import AlphaLab.Lib.Runs
import AlphaLab.Lib.SortBy
import AlphaLab.Portfolio.Money

namespace AlphaLab

open Fallible

inductive VisibilityRule where
  | publication
  | ingestion

/-- `PointInTimeStamp`: when a fact was observed, became available and was ingested.  It has no
    availability instant where that is unknown. -/
structure PointInTimeStamp where
  observedAt : Instant
  availableAt : Option Instant
  ingestedAt : Option Instant
  available : ∀ a ∈ availableAt, observedAt ≤ a
  /-- A record cannot arrive before the fact it records. -/
  ingested : ∀ a ∈ ingestedAt, observedAt ≤ a
deriving DecidableEq

namespace PointInTimeStamp

variable (s : PointInTimeStamp)

def knownAt (visibility : VisibilityRule) : Option Instant :=
  match s.availableAt, visibility with
  | none, _ => none
  | some available, .publication => some available
  | some available, .ingestion => s.ingestedAt.map (max available)

def isVisible (asOf : Instant) (visibility : VisibilityRule) : Bool :=
  (s.knownAt visibility).any (· ≤ asOf)

theorem availableAt_le_of_knownAt {visibility : VisibilityRule} {known : Instant}
    (h : s.knownAt visibility = some known) : ∃ available ∈ s.availableAt, available ≤ known := by
  cases havailable : s.availableAt with
  | none => simp [knownAt, havailable] at h
  | some available =>
    refine ⟨available, rfl, ?_⟩
    cases visibility with
    | publication =>
      have hknown : available = known := by simpa [knownAt, havailable] using h
      exact hknown.le
    | ingestion =>
      obtain ⟨ingested, -, rfl⟩ : ∃ ingested, s.ingestedAt = some ingested ∧
          max available ingested = known := by simpa [knownAt, havailable] using h
      exact le_max_left _ _

end PointInTimeStamp

structure ObservationSource where
  sourceId : String
  version : Option String
  contentHash : Option String
  retrievedAt : Option Instant
deriving DecidableEq

/-- `SetRecord`: what a record must offer to live in a set. -/
class SetRecord (T : Type) where
  stamp : T → PointInTimeStamp
  recordId : T → String
  subject : T → String
  revision : T → ℤ
  seriesKey : T → List String
  vintageKey : T → List String
  source : T → ObservationSource
  recordScheme : T → String

section
open SetRecord

variable {T : Type} [SetRecord T]

/-- `(observed_at, record_id)`: the order of a set's records. -/
def position (r : T) : Instant ×ₗ String := toLex ((stamp r).observedAt, recordId r)

def availableAt (r : T) : Option Instant := (stamp r).availableAt

def isVisible (asOf : Instant) (visibility : VisibilityRule) (r : T) : Bool :=
  (stamp r).isVisible asOf visibility

theorem keyed_position {l : List T} (h : Keyed (recordId : T → String) l) :
    Keyed (position : T → Instant ×ₗ String) l := by
  refine List.Nodup.map_on (fun a ha b hb hab => h.eq ha hb ?_) h.nodup
  exact congrArg (fun p => (ofLex p).2) hab

end

end AlphaLab
