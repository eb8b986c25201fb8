/-
  The registries the lifecycle composes, and what it checks before a version moves.

  * `ModelStage` and the legal moves between stages (`model_registry/stages.py`);
  * the strategy versions and their promotion log (`lifecycle/strategy_version.py`), and
    the model versions (`model_registry/registry.py`);
  * evidence and policies (`lifecycle/evidence.py`);
  * who may act, and what is approved (`lifecycle/governance.py`).
-/
import AlphaLab.Lib.Register
import AlphaLab.Lifecycle.Identity

namespace AlphaLab

open Fallible

/-- `ModelStage`: where a registered version is in its lifecycle. -/
inductive ModelStage where
  | none
  | staging
  | production
  | archived
deriving DecidableEq

def ModelStage.name : ModelStage → String
  | .none => "NONE"
  | .staging => "STAGING"
  | .production => "PRODUCTION"
  | .archived => "ARCHIVED"

/-- `LEGAL_TRANSITIONS`, the stages of each set in the order of their names. -/
def legalTransitions : ModelStage → List ModelStage
  | .none => [.archived, .production, .staging]
  | .staging => [.archived, .production]
  | .production => [.archived]
  | .archived => [.production, .staging]

def illegalStageMove (current target : ModelStage) : Option String :=
  if current = target then some ("is already in stage " ++ target.name)
  else if target ∉ legalTransitions current then
    some ("cannot move from " ++ current.name ++ " to " ++ target.name ++ "; " ++ current.name ++
      " can only move to " ++ ", ".intercalate ((legalTransitions current).map (·.name)))
  else Option.none

/-! ## Experiment runs and models -/

inductive RunStatus where
  | running
  | completed
  | failed
deriving DecidableEq

/-- `ExperimentTracker`: the status of every recorded run. -/
structure ExperimentTracker where
  runs : Dict String RunStatus := Dict.empty

/-- `DeploymentMetadata`: a note on where a version was deployed. -/
structure DeploymentMetadata where
  environment : String
  deployedAt : ℚ
  deployedBy : String
  notes : String

structure ModelVersion where
  name : String
  version : ℤ
  stage : ModelStage
  runId : Option String
  createdAt : ℚ
  deployment : Option DeploymentMetadata

/-- `ModelRegistry`: the versions of every model, by their numbers. -/
structure ModelRegistry where
  versions : Dict String (Register fun v : ModelVersion => v.version) := Dict.empty

namespace ModelRegistry

variable (registry : ModelRegistry)

def line (name : String) : Register fun v : ModelVersion => v.version :=
  (registry.versions.get? name).getD Register.empty

/-- `register_model`: the next version of a model, at stage `NONE`. -/
def registerModel (name : String) (timestamp : ℚ) (runId : Option String) :
    Except LifecycleRefusal (ModelRegistry × ModelVersion) := do
  require (blank name = false) (.modelRegistry "name")
  let version : ModelVersion := {
    name := name
    version := (registry.line name).values.length + 1
    stage := .none
    runId := runId
    createdAt := timestamp
    deployment := none }
  return ({ versions := registry.versions.set name ((registry.line name).put version) }, version)

def getVersion (name : String) (version : ℤ) : Except LifecycleRefusal ModelVersion := do
  require ((registry.line name).values ≠ []) (.modelRegistry "no such model")
  orRefuse ((registry.line name).get? version) (.modelRegistry "no such version")

def replaceVersion (updated : ModelVersion) : ModelRegistry :=
  { versions := registry.versions.set updated.name ((registry.line updated.name).put updated) }

end ModelRegistry

/-- `DEPLOYABLE_STAGES`, `STAGEABLE_MODEL_STAGES` and `_DEPLOYABLE_STAGES` -/
def deployableStages : List ModelStage := [.staging, .production]

def setDeploymentMetadata (registry : ModelRegistry) (name : String) (version : ℤ)
    (metadata : DeploymentMetadata) : Except LifecycleRefusal ModelRegistry := do
  let target ← registry.getVersion name version
  require (target.stage ∈ deployableStages) (.modelRegistry "stage")
  return registry.replaceVersion { target with deployment := some metadata }

/-! ## Strategy versions -/

inductive ParamValue where
  | text (value : String)
  | int (value : ℤ)
  | float (value : ℚ)
  | bool (value : Bool)

/-- `StrategyDefinition`: the parameters a version is registered with. -/
structure StrategyDefinition where
  parameters : Dict String ParamValue := Dict.empty

/-- `StrategyVersion`: one numbered version of a strategy line. -/
structure StrategyVersion extends VersionRef where
  definition : StrategyDefinition
  stage : ModelStage
  model : Option ModelRef
  runId : Option String
  evidenceId : Option String
  policyId : Option String
  createdAt : ℚ
  tags : Dict String String

def StrategyVersion.ref (v : StrategyVersion) : StrategyVersionRef := ⟨v.toVersionRef⟩

/-- `str(strategy.ref)` -/
abbrev StrategyVersion.rendered (v : StrategyVersion) : String := v.ref.render

/-- `StrategyPromotionRecord`: one stage change. -/
structure StrategyPromotionRecord where
  name : String
  version : ℤ
  fromStage : ModelStage
  toStage : ModelStage
  reason : String
  timestamp : ℚ
  actorId : String

/-- `StrategyVersionRegistry`: every strategy version, and every stage change. -/
structure StrategyVersionRegistry where
  versions : Dict String (Register fun v : StrategyVersion => v.version) := Dict.empty
  promotions : List StrategyPromotionRecord := []

namespace StrategyVersionRegistry

variable (registry : StrategyVersionRegistry)

def line (name : String) : Register fun v : StrategyVersion => v.version :=
  (registry.versions.get? name).getD Register.empty

/-- `register_strategy_version`: the next version of a line, at stage `NONE`. -/
def registerStrategyVersion (name : String) (definition : StrategyDefinition) (timestamp : ℚ)
    (model : Option ModelRef) (runId : Option String) (tags : Dict String String) :
    Except LifecycleRefusal (StrategyVersionRegistry × StrategyVersion) :=
  if hnamed : blank name = false then
    if hseparator : separator ∉ name.toList then
      let existing := registry.line name
      let version : StrategyVersion := {
        name := name
        version := existing.values.length + 1
        named := hnamed
        noSeparator := hseparator
        positive := by omega
        definition := definition
        stage := .none
        model := model
        runId := runId
        evidenceId := none
        policyId := none
        createdAt := timestamp
        tags := tags }
      .ok ({ registry with versions := registry.versions.set name (existing.put version) },
        version)
    else .error (.input "Strategy name")
  else .error (.input "Strategy name")

def getStrategyVersion (name : String) (version : ℤ) :
    Except LifecycleRefusal StrategyVersion := do
  require ((registry.line name).values ≠ []) (.input "no such strategy")
  orRefuse ((registry.line name).get? version) (.input "no such version")

def replaceStrategyVersion (updated : StrategyVersion) : StrategyVersionRegistry :=
  { registry with
    versions := registry.versions.set updated.name ((registry.line updated.name).put updated) }

end StrategyVersionRegistry

/-! ## Evidence -/

inductive Measure where
  | finite (value : ℚ)
  | infinite (negative : Bool)
  | nan
deriving DecidableEq

/-- `a < b` of two floats: no comparison with `nan` holds. -/
def Measure.below : Measure → Measure → Bool
  | .finite a, .finite b => a < b
  | .finite _, .infinite negative => !negative
  | .infinite negative, .finite _ => negative
  | .infinite a, .infinite b => a && !b
  | _, _ => false

inductive ValidationMethod where
  | backtest
  | research
  | external
  | study
deriving DecidableEq

def ValidationMethod.name : ValidationMethod → String
  | .backtest => "BACKTEST"
  | .research => "RESEARCH"
  | .external => "EXTERNAL"
  | .study => "STUDY"

/-- `ValidationEvidence`: one measurement supporting a promotion. -/
structure ValidationEvidence where
  evidenceId : String
  method : ValidationMethod
  subject : String
  datasetId : String
  metrics : Dict String Measure
  seed : Option ℤ
  producedAt : ℚ
  sourceId : String
  identified : blank evidenceId = false
  about : blank subject = false

instance : DecidableEq ValidationEvidence := fun a b =>
  decidable_of_iff (a.evidenceId = b.evidenceId ∧ a.method = b.method ∧ a.subject = b.subject ∧
      a.datasetId = b.datasetId ∧ a.metrics = b.metrics ∧ a.seed = b.seed ∧
      a.producedAt = b.producedAt ∧ a.sourceId = b.sourceId)
    (by cases a; cases b; simp)

/-- `==` of two measurements: their metrics read the same in any order. -/
def ValidationEvidence.same (a b : ValidationEvidence) : Bool :=
  decide ({ a with metrics := b.metrics } = b) &&
  decide (sortedEntries a.metrics = sortedEntries b.metrics)

/-- `MetricThreshold`: one stated bound on one metric. -/
structure MetricThreshold where
  metric : String
  minimum : Option Measure
  maximum : Option Measure
  named : blank metric = false
  bounded : minimum ≠ none ∨ maximum ≠ none

/-- `ValidationPolicy`: the thresholds evidence must meet. -/
structure ValidationPolicy where
  policyId : String
  thresholds : List MetricThreshold
  requiredMethod : Option ValidationMethod
  identified : blank policyId = false
  checks : thresholds ≠ []

inductive PolicyFailure where
  | altered
  | method (required got : ValidationMethod)
  | notRecorded (metric : String)
  | belowMinimum (metric : String) (value minimum : Measure)
  | aboveMaximum (metric : String) (value maximum : Measure)

structure LifecyclePlatform where
  sha256 : String → String
  reprParam : ParamValue → String
  reprMeasure : Measure → String

/-- `evidence_id_for`: the digest of evidence with this content. -/
def evidenceIdFor (p : LifecyclePlatform) (method : ValidationMethod) (subject datasetId : String)
    (seed : Option ℤ) (metrics : Dict String Measure) : String :=
  p.sha256 ("\n".intercalate (["method=" ++ method.name, "subject=" ++ subject,
    "dataset=" ++ datasetId, "seed=" ++ seed.elim "none" toString, "metrics"] ++
    (sortedEntries metrics).map fun e => e.1 ++ "=" ++ p.reprMeasure e.2))

def verifyEvidenceId (p : LifecyclePlatform) (evidence : ValidationEvidence) : Bool :=
  evidence.evidenceId = evidenceIdFor p evidence.method evidence.subject evidence.datasetId
    evidence.seed evidence.metrics

def thresholdFailures (metrics : Dict String Measure) (threshold : MetricThreshold) :
    List PolicyFailure :=
  match metrics.get? threshold.metric with
  | none => [.notRecorded threshold.metric]
  | some value =>
    ((threshold.minimum.filter value.below).map (.belowMinimum threshold.metric value)).toList ++
      ((threshold.maximum.filter fun bound => bound.below value).map
        (.aboveMaximum threshold.metric value)).toList

/-- `evaluate_policy`: every failed check, in policy order. -/
def evaluatePolicy (p : LifecyclePlatform) (policy : ValidationPolicy)
    (evidence : ValidationEvidence) : List PolicyFailure :=
  (if verifyEvidenceId p evidence then [] else [.altered]) ++
    ((policy.requiredMethod.filter (· ≠ evidence.method)).map
      (.method · evidence.method)).toList ++
    policy.thresholds.flatMap (thresholdFailures evidence.metrics)

/-- `ApprovalRecord`: one approval of a version for an environment. -/
structure ApprovalRecord where
  name : String
  version : ℤ
  environment : String
  approverId : String
  timestamp : ℚ
  note : String

/-- `Governance`: who acts, who says they may, and where approval is needed. -/
structure Governance where
  permitted : String → String → Bool
  actorId : String
  approvalRequiredIn : List String
  someone : blank actorId = false

/-- `authorize`: the actor, if the permission is theirs. -/
def Governance.authorize (governance : Governance) (permission : String) :
    Except LifecycleRefusal String := do
  require (governance.permitted governance.actorId permission = true)
    (.notPermitted governance.actorId permission)
  return governance.actorId

def Governance.requiresApproval (governance : Governance) (environment : String) : Bool :=
  environment ∈ governance.approvalRequiredIn

def approvalsFor (approvals : List ApprovalRecord) (name : String) (version : ℤ)
    (environment : String) : List ApprovalRecord :=
  approvals.filter fun record =>
    record.name = name ∧ record.version = version ∧ record.environment = environment

/-- `approval_for`: the newest approval by another than the deployer. -/
def approvalFor (approvals : List ApprovalRecord) (name : String) (version : ℤ)
    (environment deployerId : String) : Except LifecycleRefusal ApprovalRecord := do
  let recorded := approvalsFor approvals name version environment
  require (recorded ≠ []) (.transition "no approval")
  orRefuse (recorded.filter fun record => record.approverId ≠ deployerId).getLast?
    (.transition "no independent approval")

end AlphaLab
