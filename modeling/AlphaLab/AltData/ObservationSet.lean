/-
  Sets of point-in-time records, and the streams they grow from (`alt_data/observation_set.py`,
  `alt_data/streaming.py`).

  * `ObservationSet` carries the checks it is built under; `buildObservationSet` makes one of
    records in any order, and the restrictions derive others from it;
  * `ObservationStream.append` takes records as they arrive, each checked against those that
    are held.

  A version is the content that its digest names.
-/
import AlphaLab.AltData.Records

namespace AlphaLab

open Fallible SetRecord

/-- `require_label`: a text that is not blank, in one line and without space around it. -/
def IsLabel (text : String) : Prop :=
  text.toList ≠ [] ∧ (∀ c ∈ text.toList.head?, ¬ c.isWhitespace) ∧
    (∀ c ∈ text.toList.getLast?, ¬ c.isWhitespace) ∧ '\n' ∉ text.toList ∧ '\r' ∉ text.toList

instance (text : String) : Decidable (IsLabel text) :=
  decidable_of_iff (text.toList ≠ [] ∧ text.toList.head?.all (fun c => ¬ c.isWhitespace) = true ∧
    text.toList.getLast?.all (fun c => ¬ c.isWhitespace) = true ∧ '\n' ∉ text.toList ∧
    '\r' ∉ text.toList) (by simp [IsLabel, Option.all_eq_true])

structure SetName where
  text : String
  label : IsLabel text
  plain : '@' ∉ text.toList

def filingsName : SetName := ⟨"filings", by decide, by decide⟩
def figuresName : SetName := ⟨"figures", by decide, by decide⟩

structure SetTransformation where
  operation : String
  detail : String
  recordsBefore : ℕ
  recordsAfter : ℕ
  keeps : 1 ≤ recordsAfter ∧ recordsAfter ≤ recordsBefore

/-- `derive_set_version`: what a version names.  Of the source, its lines. -/
inductive SetVersion where
  | of (name kind sourceId : String) (version contentHash : Option String)
      (parent : Option SetVersion) (transformations : List SetTransformation)
      (recordIds : List String)

/-! ## Checks -/

inductive SetRefusal where
  | empty
  | otherKind (recordId : String)
  | otherSource (recordId : String)
  | twice (recordId : String)
  | disordered (recordId : String)
  | revisionTwice (recordId : String)
  | publishedAhead (recordId : String)
deriving DecidableEq

section
variable {T : Type} [SetRecord T]

def SameFigure (a b : T) : Prop := vintageKey a = vintageKey b

instance (a b : T) : Decidable (SameFigure a b) := inferInstanceAs (Decidable (_ = _))

def SameClaim (a b : T) : Prop := SameFigure a b ∧ revision a = revision b

instance (a b : T) : Decidable (SameClaim a b) := inferInstanceAs (Decidable (_ ∧ _))

/-- One record is available no later than another, as far as is known. -/
def InTime (a b : T) : Prop := ∀ x ∈ availableAt a, ∀ y ∈ availableAt b, x ≤ y

instance (a b : T) : Decidable (InTime a b) :=
  match hx : availableAt a, hy : availableAt b with
  | some x, some y => decidable_of_iff (x ≤ y) (by simp [InTime, hx, hy])
  | none, _ => .isTrue (by simp [InTime, hx])
  | some _, none => .isTrue (by simp [InTime, hy])

/-- `_check_vintages`, its first loop: no revision is claimed twice. -/
def checkClaims : List T → List T → Except SetRefusal Unit
  | _, [] => .ok ()
  | earlier, r :: later => do
    require (∀ e ∈ earlier, ¬ SameClaim e r) (.revisionTwice (recordId r))
    checkClaims (earlier ++ [r]) later

def revisionsOf (records : List T) (figure : List String) : List T :=
  sortBy revision (records.filter fun r => vintageKey r = figure)

def checkNeighbours : List T → Except SetRefusal Unit
  | a :: b :: later => do
    require (InTime a b) (.publishedAhead (recordId b))
    checkNeighbours (b :: later)
  | _ => .ok ()

def checkVintages (records : List T) : Except SetRefusal Unit := do
  checkClaims [] records
  (records.map vintageKey).eraseDups.forM fun figure =>
    checkNeighbours (revisionsOf records figure)

/-- `ObservationSet.__post_init__`, its loop over the records. -/
def checkRecords (kind : String) (source : ObservationSource) :
    List T → List String → Option (Instant ×ₗ String) → Except SetRefusal Unit
  | [], _, _ => .ok ()
  | r :: later, seen, previous => do
    require (recordScheme r = kind) (.otherKind (recordId r))
    require (SetRecord.source r = source) (.otherSource (recordId r))
    require (recordId r ∉ seen) (.twice (recordId r))
    require (∀ p ∈ previous, p ≤ position r) (.disordered (recordId r))
    checkRecords kind source later (seen ++ [recordId r]) (some (position r))

/-- `ObservationSet.__post_init__`, of what is not its name or version. -/
def checkSet (kind : String) (source : ObservationSource) (records : List T) :
    Except SetRefusal Unit := do
  require (records ≠ []) .empty
  checkRecords kind source records [] none
  checkVintages records

end

/-! ## Sets -/

structure ObservationSet (T : Type) [SetRecord T] where
  name : SetName
  kind : String
  source : ObservationSource
  records : List T
  parentVersion : Option SetVersion
  transformations : List SetTransformation
  checked : checkSet kind source records = .ok ()

namespace ObservationSet

variable {T : Type} [SetRecord T] (set : ObservationSet T)

/-- `derive_set_version` -/
def version : SetVersion :=
  .of set.name.text set.kind set.source.sourceId set.source.version set.source.contentHash
    set.parentVersion set.transformations (sortBy id (set.records.map recordId))

def derive (name : SetName) (source : ObservationSource) (records : List T)
    (parent : Option SetVersion) (transformations : List SetTransformation) :
    Except SetRefusal (ObservationSet T) :=
  match sortBy position records with
  | [] => .error .empty
  | first :: later =>
    match h : checkSet (recordScheme first) source (first :: later) with
    | .error e => .error e
    | .ok () => .ok ⟨name, recordScheme first, source, first :: later, parent, transformations, h⟩

def restricted (kept : List T) (hkept : kept.length ≤ set.records.length)
    (operation detail : String) : Except SetRefusal (ObservationSet T) :=
  if h : kept = [] then .error .empty
  else
    derive set.name set.source kept (some set.version)
      (set.transformations ++
        [⟨operation, detail, set.records.length, kept.length, List.length_pos_iff.mpr h, hkept⟩])

inductive Restriction where
  | subjects (wanted : List String)
  | observed (start «end» : Instant)
  | knownBy (asOf : Instant) (visibility : VisibilityRule)
  | originals

def Restriction.keeps : Restriction → T → Bool
  | subjects wanted, r => subject r ∈ wanted
  | observed start «end», r =>
    decide (start ≤ (stamp r).observedAt ∧ (stamp r).observedAt < «end»)
  | knownBy asOf visibility, r => isVisible asOf visibility r
  | originals, r => revision r = 0

def Restriction.operation : Restriction → String
  | subjects _ => "restrict_subjects"
  | observed _ _ => "restrict_observed"
  | knownBy _ _ => "known_by"
  | originals => "originals_only"

/-- `restrict_subjects`, `restrict_observed`, `known_by` and `originals_only`, with arguments
    that pass their checks and are rendered as `detail`. -/
def restrict (r : Restriction) (detail : String) : Except SetRefusal (ObservationSet T) :=
  set.restricted (set.records.filter r.keeps) (List.length_filter_le _ _) r.operation detail

end ObservationSet

def buildObservationSet {T : Type} [SetRecord T] (name : SetName) (records : List T)
    (source : ObservationSource) : Except SetRefusal (ObservationSet T) :=
  ObservationSet.derive name source records none []

/-! ## Streams -/

structure ObservationStream (T : Type) where
  name : SetName
  source : ObservationSource
  kind : Option String
  records : List T
  ids : Dict String Unit
  vintages : Dict (List String) (Dict ℤ (Option Instant))

namespace ObservationStream

variable {T : Type} [SetRecord T]

def «open» (name : SetName) (source : ObservationSource) : ObservationStream T :=
  ⟨name, source, none, [], .empty, .empty⟩

variable (s : ObservationStream T)

def checkArrival (r : T) (revisions : Dict ℤ (Option Instant)) : Except SetRefusal Unit := do
  require (revisions.get? (revision r) = none) (.revisionTwice (recordId r))
  require (∀ available ∈ availableAt r, ∀ e ∈ revisions.entries, ∀ other ∈ e.2,
    (e.1 < revision r → other ≤ available) ∧ (revision r < e.1 → available ≤ other))
    (.publishedAhead (recordId r))

def revisionsHeld (r : T) : Dict ℤ (Option Instant) := (s.vintages.get? (vintageKey r)).getD .empty

/-- One record of `append`. -/
def arrive (r : T) : Except SetRefusal (ObservationStream T) := do
  require (∀ kind ∈ s.kind, recordScheme r = kind) (.otherKind (recordId r))
  require (SetRecord.source r = s.source) (.otherSource (recordId r))
  require (s.ids.get? (recordId r) = none) (.twice (recordId r))
  checkArrival r (s.revisionsHeld r)
  .ok { s with
    kind := some (s.kind.getD (recordScheme r))
    records := s.records ++ [r]
    ids := s.ids.set (recordId r) ()
    vintages := s.vintages.set (vintageKey r)
      ((s.revisionsHeld r).set (revision r) (availableAt r)) }

def append (records : List T) : Except SetRefusal (ObservationStream T) :=
  records.foldlM arrive s

def toSet : Except SetRefusal (ObservationSet T) := buildObservationSet s.name s.records s.source

end ObservationStream

end AlphaLab
