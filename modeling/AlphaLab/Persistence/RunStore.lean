/-
  Where captured run states are kept: in files and in memory
  (`persistence/run_state.py`, `persistence/run_store.py`).

  * `RunStateRef` is which run and which checkpoint; `FileRunStateStore` keeps one
    directory a run and one file a checkpoint, the envelope's line before the payload,
    and `MemoryRunStateStore` keeps the payloads;
  * `Platform` is what Python does for the files: the digest, the JSON text of a flat
    object, and which file names the file system takes;
  * `StoreCall` is one call of a store, `FileRunStateStore.call` and
    `MemoryRunStateStore.call` what it does there.
-/
import AlphaLab.Lib.Newlines
import AlphaLab.Portfolio.State

namespace AlphaLab

open Fallible Newlines

inductive StoreRefusal where
  | invalid (field : String)
  | alreadyStored (runId : String) (sequence : ℕ)
  | cannotWrite (sequence : ℕ)
  | unknownRun (runId : String)
  | noCheckpoint (runId : String) (sequence : ℕ)
  /-- `StorageError`: no envelope line, or one that is not an object. -/
  | unreadable
  | version
  /-- `StorageError`: the stored bytes do not match their digest. -/
  | altered (runId : String) (sequence : ℕ)

structure RunStateRef where
  runId : String
  sequence : ℕ
  named : blank runId = false
  noSeparator : '@' ∉ runId.toList

/-- `RunStateRef(run_id, sequence)` -/
def RunStateRef.of (runId : String) (sequence : ℤ) : Except StoreRefusal RunStateRef :=
  if hnamed : blank runId = false then
    if hseparator : '@' ∉ runId.toList then
      if 0 ≤ sequence then .ok ⟨runId, sequence.toNat, hnamed, hseparator⟩
      else .error (.invalid "sequence")
    else .error (.invalid "run_id")
  else .error (.invalid "run_id")

def RunStateRef.at_ (ref : RunStateRef) (sequence : ℕ) : RunStateRef :=
  { ref with sequence := sequence }

/-! ## The platform -/

/-- A JSON object of texts and numbers, its keys sorted. -/
abbrev FlatObject := List (String × (String ⊕ ℤ))

/-- What Python and the file system do for the file store. -/
structure Platform where
  sha256 : String → String
  serialize : FlatObject → String
  deserialize : String → Option FlatObject
  takesName : ℕ → Bool
  deserialize_serialize : ∀ fields, deserialize (serialize fields) = some fields
  serialize_oneLine : ∀ fields, '\n' ∉ (serialize fields).toList ∧ '\r' ∉ (serialize fields).toList

def runStateEnvelopeSchema : ℤ := 1

def runDirWidth : ℕ := 32

def readText (contents : String) : String := String.ofList (universalNewlines contents.toList)

namespace Platform

variable (p : Platform)

/-- `_run_dir`: a run's directory is named by a digest of its identity. -/
def runDir (runId : String) : String := String.ofList ((p.sha256 runId).toList.take runDirWidth)

def envelopeFields (ref : RunStateRef) (payload : String) : FlatObject := [
  ("byte_size", .inr payload.utf8ByteSize),
  ("digest", .inl (p.sha256 payload)),
  ("run_id", .inl ref.runId),
  ("schema_version", .inr runStateEnvelopeSchema),
  ("sequence", .inr ref.sequence)]

/-- `_envelope`: what is recorded, on one line. -/
def envelope (ref : RunStateRef) (payload : String) : String :=
  p.serialize (p.envelopeFields ref payload)

def identity (runId : String) : String :=
  p.serialize [("run_id", .inl runId), ("schema_version", .inr runStateEnvelopeSchema)]

/-- What a checkpoint's file holds: the envelope line, then the payload. -/
def contents (ref : RunStateRef) (payload : String) : String :=
  String.ofList ((p.envelope ref payload).toList ++ '\n' :: payload.toList)

/-- `_split`: the envelope line and the payload that follows it. -/
def split (contents : String) : Except StoreRefusal (String × String) :=
  match partitionLine contents.toList with
  | none => .error .unreadable
  | some (header, payload) => .ok (String.ofList header, String.ofList payload)

/-- `_verified`: a payload checked against the envelope stored with it. -/
def verified (ref : RunStateRef) (header payload : String) : Except StoreRefusal String := do
  let decoded ← orRefuse (p.deserialize header) .unreadable
  require (Dict.getList "schema_version" decoded = some (.inr runStateEnvelopeSchema)) .version
  require (Dict.getList "digest" decoded = some (.inl (p.sha256 payload)))
    (.altered ref.runId ref.sequence)
  pure payload

end Platform

/-! ## The file store -/

/-- A run's directory: its identity file, and its checkpoints by their sequence. -/
structure RunDirectory where
  identity : Option String := none
  states : Dict ℕ String := Dict.empty

/-- `FileRunStateStore`: the directories under its root. -/
structure FileRunStateStore where
  directories : Dict String RunDirectory := Dict.empty

namespace FileRunStateStore

variable (p : Platform) (s : FileRunStateStore)

def ensureDirectory (runId : String) : FileRunStateStore :=
  if (s.directories.get? (p.runDir runId)).isSome then s
  else ⟨s.directories.set (p.runDir runId) {}⟩

def written (dir : RunDirectory) (ref : RunStateRef) (payload : String) : RunDirectory where
  identity := some (dir.identity.getD (p.identity ref.runId))
  states := dir.states.set ref.sequence (p.contents ref payload)

/-- `put`, of a valid identity. -/
def putAt (ref : RunStateRef) (payload : String) :
    FileRunStateStore × Except StoreRefusal RunStateRef :=
  let ensured := s.ensureDirectory p ref.runId
  let dir := (ensured.directories.get? (p.runDir ref.runId)).getD {}
  if p.takesName ref.sequence = false then (ensured, .error (.cannotWrite ref.sequence))
  else if (dir.states.get? ref.sequence).isSome then
    (ensured, .error (.alreadyStored ref.runId ref.sequence))
  else (⟨ensured.directories.set (p.runDir ref.runId) (written p dir ref payload)⟩, .ok ref)

def put (runId : String) (sequence : ℤ) (payload : String) :
    FileRunStateStore × Except StoreRefusal RunStateRef :=
  match RunStateRef.of runId sequence with
  | .error e => (s, .error e)
  | .ok ref => s.putAt p ref payload

def get (ref : RunStateRef) : Except StoreRefusal String := do
  let dir ← orRefuse (s.directories.get? (p.runDir ref.runId)) (.unknownRun ref.runId)
  let stored ← orRefuse (dir.states.get? ref.sequence) (.noCheckpoint ref.runId ref.sequence)
  let (header, payload) ← Platform.split (readText stored)
  p.verified ref header payload

/-- `_sequences`: every stored sequence, ascending. -/
def sequences (dir : RunDirectory) : List ℕ := dir.states.keys.insertionSort (· ≤ ·)

def latest (runId : String) : Except StoreRefusal (Option RunStateRef) := do
  let ref ← RunStateRef.of runId 0
  match s.directories.get? (p.runDir runId) with
  | none => pure none
  | some dir => pure ((sequences dir).getLast?.map ref.at_)

def identityOf (dir : RunDirectory) : Except StoreRefusal (Option String) :=
  match dir.identity with
  | none => pure none
  | some stored =>
    if sequences dir = [] then pure none
    else do
      let decoded ← orRefuse (p.deserialize (readText stored)) .unreadable
      pure ((Dict.getList "run_id" decoded).bind Sum.getLeft?)

def listRuns : Except StoreRefusal (List String) := do
  let found ← s.directories.values.mapM (identityOf p)
  pure ((found.filterMap id).insertionSort (· ≤ ·))

end FileRunStateStore

/-! ## The memory store -/

structure MemoryRunStateStore where
  runs : Dict String (Dict ℕ String) := Dict.empty

namespace MemoryRunStateStore

variable (s : MemoryRunStateStore)

/-- `put`, of a valid identity. -/
def putAt (ref : RunStateRef) (payload : String) :
    MemoryRunStateStore × Except StoreRefusal RunStateRef :=
  let checkpoints := (s.runs.get? ref.runId).getD Dict.empty
  if (checkpoints.get? ref.sequence).isSome then
    (⟨s.runs.set ref.runId checkpoints⟩, .error (.alreadyStored ref.runId ref.sequence))
  else (⟨s.runs.set ref.runId (checkpoints.set ref.sequence payload)⟩, .ok ref)

def put (runId : String) (sequence : ℤ) (payload : String) :
    MemoryRunStateStore × Except StoreRefusal RunStateRef :=
  match RunStateRef.of runId sequence with
  | .error e => (s, .error e)
  | .ok ref => s.putAt ref payload

def get (ref : RunStateRef) : Except StoreRefusal String := do
  let checkpoints ← orRefuse (s.runs.get? ref.runId) (.unknownRun ref.runId)
  orRefuse (checkpoints.get? ref.sequence) (.noCheckpoint ref.runId ref.sequence)

def latest (runId : String) : Except StoreRefusal (Option RunStateRef) := do
  let ref ← RunStateRef.of runId 0
  pure (((s.runs.get? runId).getD Dict.empty).keys.max?.map ref.at_)

def listRuns : List String :=
  ((s.runs.entries.filter fun run => run.2.entries ≠ []).map Prod.fst).insertionSort (· ≤ ·)

end MemoryRunStateStore

inductive StoreCall where
  | put (runId : String) (sequence : ℤ) (payload : String)
  | get (ref : RunStateRef)
  | latest (runId : String)
  | listRuns

inductive StoreAnswer where
  | stored (ref : RunStateRef)
  | payload (text : String)
  | latest (ref : Option RunStateRef)
  | runs (runIds : List String)

def FileRunStateStore.call (p : Platform) (s : FileRunStateStore) :
    StoreCall → FileRunStateStore × Except StoreRefusal StoreAnswer
  | .put runId sequence payload =>
    ((s.put p runId sequence payload).1, (s.put p runId sequence payload).2.map .stored)
  | .get ref => (s, (s.get p ref).map .payload)
  | .latest runId => (s, (s.latest p runId).map .latest)
  | .listRuns => (s, (s.listRuns p).map .runs)

def MemoryRunStateStore.call (s : MemoryRunStateStore) :
    StoreCall → MemoryRunStateStore × Except StoreRefusal StoreAnswer
  | .put runId sequence payload =>
    ((s.put runId sequence payload).1, (s.put runId sequence payload).2.map .stored)
  | .get ref => (s, (s.get ref).map .payload)
  | .latest runId => (s, (s.latest runId).map .latest)
  | .listRuns => (s, .ok (.runs s.listRuns))

def answers {σ : Type} (call : σ → StoreCall → σ × Except StoreRefusal StoreAnswer) :
    σ → List StoreCall → List (Option StoreAnswer)
  | _, [] => []
  | s, c :: calls => (call s c).2.toOption :: answers call (call s c).1 calls

end AlphaLab
