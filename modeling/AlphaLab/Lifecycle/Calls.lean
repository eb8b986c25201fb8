/-
  The lifecycle's state and what is done to it (`lifecycle/state.py`, `registration.py`,
  `promotion.py`, `deployment.py`, `views.py`).

  `LifecycleState` holds the registries together with the evidence, the approvals and
  which release package stands for which strategy version.  Promotion moves a version's
  stage on evidence; deploying and rolling back write the ledger and move the stages of
  the version put in an environment and of the one displaced.  `LifecycleCall` is one
  call, and `LifecycleState.call` what it leads to.
-/
import AlphaLab.Lifecycle.Releases
import AlphaLab.Lifecycle.Versions

namespace AlphaLab

open Fallible

/-! ## Names -/

def componentStrategy : String := "strategy"
def componentModel : String := "model"
def componentRun : String := "experiment_run"
def componentEvidence : String := "evidence"

def permissionPromote : String := "lifecycle.promote"
def permissionDeploy : String := "lifecycle.deploy"
def permissionRollback : String := "lifecycle.rollback"
def permissionRetire : String := "lifecycle.retire"
def permissionApprove : String := "lifecycle.approve"

/-- `LifecycleState`: the registries, and what none of them owns. -/
structure LifecycleState where
  experiments : ExperimentTracker := {}
  models : ModelRegistry := {}
  strategies : StrategyVersionRegistry := {}
  deployments : DeploymentManager := {}
  evidence : Dict String ValidationEvidence := Dict.empty
  releases : Dict String ℤ := Dict.empty
  approvals : List ApprovalRecord := []

namespace LifecycleState

variable (p : LifecyclePlatform) (state : LifecycleState)

def versionNamed (package : ReleasePackage) : Except LifecycleRefusal (Option StrategyVersion) :=
  match package.components.get? componentStrategy with
  | none => .ok none
  | some reference => do
    let (name, version) ← parseRef reference
    return some (← state.strategies.getStrategyVersion name version)

def activeStrategyVersion (environment : String) :
    Except LifecycleRefusal (Option StrategyVersion) := do
  match ← state.deployments.activeRelease environment with
  | none => return none
  | some release => state.versionNamed release

/-- `environments_running`: the environments in which a strategy version is active. -/
def environmentsRunning (name : String) (version : ℤ) : Except LifecycleRefusal (List String) := do
  let reference ← StrategyVersionRef.of name version
  state.deployments.deployedEnvironments.foldlM (fun running environment => do
    let release ← state.deployments.activeRelease environment
    if release.bind (·.components.get? componentStrategy) = some reference.render then
      return running ++ [environment]
    else return running) []

def requireCompletedRun (runId : Option String) : Except LifecycleRefusal Unit :=
  match runId with
  | none => .ok ()
  | some id => do
    let status ← orRefuse (state.experiments.runs.get? id) (.input "no such run")
    require (status = .completed) (.input "run not completed")

def registerModelVersion (name : String) (timestamp : ℚ) (runId : Option String) :
    Except LifecycleRefusal (LifecycleState × ModelRef) := do
  state.requireCompletedRun runId
  let (registry, version) ← state.models.registerModel name timestamp runId
  return ({ state with models := registry }, ← ModelRef.of version.name version.version)

def requireRegisteredModel (model : Option ModelRef) : Except LifecycleRefusal Unit :=
  match model with
  | none => .ok ()
  | some ref => (state.models.getVersion ref.name ref.version).map fun _ => ()

def registerStrategy (name : String) (definition : StrategyDefinition) (timestamp : ℚ)
    (model : Option ModelRef) (runId : Option String) (tags : Dict String String) :
    Except LifecycleRefusal (LifecycleState × StrategyVersionRef) := do
  state.requireCompletedRun runId
  state.requireRegisteredModel model
  let (registry, version) ←
    state.strategies.registerStrategyVersion name definition timestamp model runId tags
  return ({ state with strategies := registry }, version.ref)

/-! ## Promotion -/

def recordEvidence (evidence : ValidationEvidence) : Except LifecycleRefusal LifecycleState :=
  match state.evidence.get? evidence.evidenceId with
  | some existing => do
    require (existing.same evidence = true) (.input "evidence id")
    return state
  | none => .ok { state with evidence := state.evidence.set evidence.evidenceId evidence }

def validateStrategyVersion (name : String) (version : ℤ) (policy : ValidationPolicy)
    (evidenceId : String) : Except LifecycleRefusal (List PolicyFailure) := do
  let strategy ← state.strategies.getStrategyVersion name version
  let evidence ← orRefuse (state.evidence.get? evidenceId) (.input "no such evidence")
  require (evidence.subject = strategy.rendered) (.input "evidence subject")
  return evaluatePolicy p policy evidence

/-- `record_stage_change`: one stage move, and its audit record. -/
def recordStageChange (strategy : StrategyVersion) (toStage : ModelStage) (reason : String)
    (timestamp : ℚ) (evidenceId policyId : Option String) (actorId : String) : LifecycleState :=
  let record : StrategyPromotionRecord := {
    name := strategy.name
    version := strategy.version
    fromStage := strategy.stage
    toStage := toStage
    reason := reason
    timestamp := timestamp
    actorId := actorId }
  let updated : StrategyVersion := { strategy with
    stage := toStage
    evidenceId := evidenceId <|> strategy.evidenceId
    policyId := policyId <|> strategy.policyId }
  let moved := state.strategies.replaceStrategyVersion updated
  { state with strategies := { moved with promotions := moved.promotions ++ [record] } }

def refuseIllegalMove (strategy : StrategyVersion) (target : ModelStage) :
    Except LifecycleRefusal Unit :=
  match illegalStageMove strategy.stage target with
  | some reason => .error (.transition reason)
  | none => .ok ()

/-- Refuse unless the model a strategy version runs, if it runs one, is staged or live. -/
def requireModelStage (strategy : StrategyVersion) (what : String) :
    Except LifecycleRefusal Unit :=
  match strategy.model with
  | none => .ok ()
  | some ref => do
    let model ← state.models.getVersion ref.name ref.version
    require (model.stage ∈ deployableStages) (.transition what)

/-- `promote_strategy_version`: a version moves to `STAGING` on passing evidence. -/
def promoteStrategyVersion (governance : Governance) (name : String) (version : ℤ)
    (policy : ValidationPolicy) (evidenceId : String) (timestamp : ℚ) :
    Except LifecycleRefusal LifecycleState := do
  let actorId ← governance.authorize permissionPromote
  let strategy ← state.strategies.getStrategyVersion name version
  refuseIllegalMove strategy .staging
  state.requireModelStage strategy "model not staged"
  let failures ← state.validateStrategyVersion p name version policy evidenceId
  require (failures = []) (.transition "policy")
  return state.recordStageChange strategy .staging
    ("evidence '" ++ evidenceId ++ "' passed policy '" ++ policy.policyId ++ "'") timestamp
    (some evidenceId) (some policy.policyId) actorId

/-- `retire_strategy_version`: a version that runs nowhere is archived. -/
def retireStrategyVersion (governance : Governance) (name : String) (version : ℤ)
    (timestamp : ℚ) (reason : String) : Except LifecycleRefusal LifecycleState := do
  let actorId ← governance.authorize permissionRetire
  let strategy ← state.strategies.getStrategyVersion name version
  refuseIllegalMove strategy .archived
  let running ← state.environmentsRunning name version
  require (running = []) (.transition "still active")
  return state.recordStageChange strategy .archived reason timestamp none none actorId

def approveDeployment (governance : Governance) (name : String) (version : ℤ)
    (environment : String) (timestamp : ℚ) (note : String) :
    Except LifecycleRefusal LifecycleState := do
  let approverId ← governance.authorize permissionApprove
  require (blank environment = false) (.input "environment")
  let strategy ← state.strategies.getStrategyVersion name version
  let record : ApprovalRecord := {
    name := strategy.name
    version := strategy.version
    environment := environment
    approverId := approverId
    timestamp := timestamp
    note := note }
  return { state with approvals := state.approvals ++ [record] }

/-! ## Deploying -/

def releaseManifest (strategy : StrategyVersion) : Dict String String × Dict String String :=
  let components := Dict.empty.set componentStrategy strategy.rendered
  let components := strategy.model.elim components fun model =>
    components.set componentModel model.render
  let components := strategy.runId.elim components (components.set componentRun)
  let components := strategy.evidenceId.elim components (components.set componentEvidence)
  let config := strategy.definition.parameters.entries.map fun e => (e.1, p.reprParam e.2)
  (components, Dict.ofList config)

/-- `_release_for`: the package standing for a strategy version, registered once. -/
def releaseFor (strategy : StrategyVersion) (timestamp : ℚ) :
    Except LifecycleRefusal (LifecycleState × ReleasePackage) :=
  match state.releases.get? strategy.rendered with
  | some existing => do return (state, ← state.deployments.getRelease strategy.name existing)
  | none => do
    let (components, config) := releaseManifest p strategy
    let (manager, package) ←
      state.deployments.registerRelease p.sha256 strategy.name components config timestamp
    return ({ state with
      deployments := manager
      releases := state.releases.set strategy.rendered package.version }, package)

def noteModelDeployment (strategy : StrategyVersion) (environment : String) (timestamp : ℚ)
    (deployedBy notes : String) : Except LifecycleRefusal LifecycleState :=
  match strategy.model with
  | none => .ok state
  | some ref => do
    let metadata : DeploymentMetadata := {
      environment := environment
      deployedAt := timestamp
      deployedBy := deployedBy
      notes := notes }
    let models ← setDeploymentMetadata state.models ref.name ref.version metadata
    return { state with models := models }

/-- `_retire_if_idle`: a displaced version is archived, unless it runs elsewhere. -/
def retireIfIdle (outgoing : Option StrategyVersion) (reason : String) (timestamp : ℚ) :
    Except LifecycleRefusal LifecycleState :=
  match outgoing with
  | none => .ok state
  | some version =>
    if version.stage ≠ .production then .ok state
    else do
      let running ← state.environmentsRunning version.name version.version
      if running ≠ [] then return state
      else return state.recordStageChange version .archived reason timestamp none none ""

def requireApproval (governance : Governance) (name : String) (version : ℤ)
    (environment actorId : String) : Except LifecycleRefusal Unit :=
  if governance.requiresApproval environment then
    (approvalFor state.approvals name version environment actorId).map fun _ => ()
  else .ok ()

/-- `deploy_strategy_version`: a version becomes the one active in an environment. -/
def deployStrategyVersion (governance : Governance) (name : String) (version : ℤ)
    (environment : String) (timestamp : ℚ) (deployedBy notes : String) :
    Except LifecycleRefusal (LifecycleState × DeploymentRef) := do
  let actorId ← governance.authorize permissionDeploy
  require (blank environment = false) (.input "environment")
  let strategy ← state.strategies.getStrategyVersion name version
  require (strategy.stage ∈ deployableStages) (.transition "not staged")
  let incumbent ← state.activeStrategyVersion environment
  require (incumbent.map (·.ref) ≠ some strategy.ref) (.transition "already active")
  state.requireModelStage strategy "model not deployable"
  state.requireApproval governance name version environment actorId
  let (deployed, package) ← state.releaseFor p strategy timestamp
  let manager ← deployed.deployments.deploy p.sha256 package.name package.version environment
    timestamp actorId
  let deployed := { deployed with deployments := manager }
  let deployed :=
    if strategy.stage ≠ .production then
      deployed.recordStageChange strategy .production ("deployed to '" ++ environment ++ "'")
        timestamp none none actorId
    else deployed
  let deployed ← deployed.retireIfIdle incumbent
    ("replaced in '" ++ environment ++ "' by " ++ strategy.rendered) timestamp
  let deployed ← deployed.noteModelDeployment strategy environment timestamp deployedBy notes
  return (deployed, ← DeploymentRef.of environment package.name package.version)

/-- `rollback_environment`: an environment returns to the version that ran before. -/
def rollbackEnvironment (governance : Governance) (environment : String) (timestamp : ℚ)
    (deployedBy notes : String) : Except LifecycleRefusal (LifecycleState × DeploymentRef) := do
  let actorId ← governance.authorize permissionRollback
  let target ← orRefuse (state.deployments.previousRelease environment)
    (.input "no previous deployment")
  let outgoing ← state.activeStrategyVersion environment
  let package ← state.deployments.getRelease target.1 target.2
  let restored ← orRefuse (← state.versionNamed package) (.input "names no strategy version")
  state.requireModelStage restored "model not deployable"
  let manager ← state.deployments.rollback environment timestamp actorId
  let rolled := { state with deployments := manager }
  let rolled :=
    if restored.stage ≠ .production then
      rolled.recordStageChange restored .production ("rolled back in '" ++ environment ++
        "' from " ++ outgoing.elim "nothing" (·.rendered)) timestamp none none actorId
    else rolled
  let rolled ← rolled.retireIfIdle outgoing
    ("rolled back in '" ++ environment ++ "' to " ++ restored.rendered) timestamp
  let rolled ← rolled.noteModelDeployment restored environment timestamp deployedBy notes
  return (rolled, ← DeploymentRef.of environment target.1 target.2)

end LifecycleState

inductive LifecycleCall where
  | registerModelVersion (name : String) (timestamp : ℚ) (runId : Option String)
  | registerStrategy (name : String) (definition : StrategyDefinition) (timestamp : ℚ)
      (model : Option ModelRef) (runId : Option String) (tags : Dict String String)
  | recordEvidence (evidence : ValidationEvidence)
  | promote (governance : Governance) (name : String) (version : ℤ) (policy : ValidationPolicy)
      (evidenceId : String) (timestamp : ℚ)
  | approve (governance : Governance) (name : String) (version : ℤ) (environment : String)
      (timestamp : ℚ) (note : String)
  | retire (governance : Governance) (name : String) (version : ℤ) (timestamp : ℚ)
      (reason : String)
  | deploy (governance : Governance) (name : String) (version : ℤ) (environment : String)
      (timestamp : ℚ) (deployedBy notes : String)
  | rollback (governance : Governance) (environment : String) (timestamp : ℚ)
      (deployedBy notes : String)
  /-- What the tracker and the model registry do between calls: runs begin and finish, and
  model versions change their stages. -/
  | between (experiments : ExperimentTracker) (models : ModelRegistry)

def LifecycleState.call (p : LifecyclePlatform) (state : LifecycleState) :
    LifecycleCall → Except LifecycleRefusal LifecycleState
  | .registerModelVersion name timestamp runId =>
    (state.registerModelVersion name timestamp runId).map Prod.fst
  | .registerStrategy name definition timestamp model runId tags =>
    (state.registerStrategy name definition timestamp model runId tags).map Prod.fst
  | .recordEvidence evidence => state.recordEvidence evidence
  | .promote governance name version policy evidenceId timestamp =>
    state.promoteStrategyVersion p governance name version policy evidenceId timestamp
  | .approve governance name version environment timestamp note =>
    state.approveDeployment governance name version environment timestamp note
  | .retire governance name version timestamp reason =>
    state.retireStrategyVersion governance name version timestamp reason
  | .deploy governance name version environment timestamp deployedBy notes =>
    (state.deployStrategyVersion p governance name version environment timestamp deployedBy
      notes).map Prod.fst
  | .rollback governance environment timestamp deployedBy notes =>
    (state.rollbackEnvironment governance environment timestamp deployedBy notes).map Prod.fst
  | .between experiments models => .ok { state with experiments := experiments, models := models }

/-! ## What an accepted call does -/

namespace LifecycleState

/-- What becomes of the version displaced: it is archived if it was in production and runs
nowhere. -/
inductive Retires (state : LifecycleState) (outgoing : Option StrategyVersion) (reason : String)
    (timestamp : ℚ) : LifecycleState → Prop
  | kept (h : ∀ out ∈ outgoing, out.stage = .production → ∃ running,
      state.environmentsRunning out.name out.version = .ok running ∧ running ≠ []) :
      Retires state outgoing reason timestamp state
  | idle (out : StrategyVersion) (hout : outgoing = some out) (hstage : out.stage = .production)
      (hidle : state.environmentsRunning out.name out.version = .ok []) :
      Retires state outgoing reason timestamp
        (state.recordStageChange out .archived reason timestamp none none "")

/-- How a deployment or a rollback ends, once the version is placed in its environment. -/
inductive Settles (placed : LifecycleState) (v : StrategyVersion)
    (outgoing : Option StrategyVersion) (timestamp : ℚ) : LifecycleState → Prop
  | mk (why whyOut actorId : String) (settled : LifecycleState) (models : ModelRegistry)
      (h : Retires (if v.stage ≠ .production then
        placed.recordStageChange v .production why timestamp none none actorId else placed)
        outgoing whyOut timestamp settled) :
      Settles placed v outgoing timestamp { settled with models := models }

inductive Deploys (p : LifecyclePlatform) (state : LifecycleState) (name : String) (version : ℤ)
    (environment : String) (timestamp : ℚ) (state' : LifecycleState) : Prop
  | mk (v : StrategyVersion) (incumbent : Option StrategyVersion) (packed : LifecycleState)
      (package : ReleasePackage) (manager : DeploymentManager) (actorId : String)
      (hget : state.strategies.getStrategyVersion name version = .ok v)
      (hincumbent : state.activeStrategyVersion environment = .ok incumbent)
      (hdiffers : incumbent.map (·.ref) ≠ some v.ref)
      (hrelease : state.releaseFor p v timestamp = .ok (packed, package))
      (hdeploy : packed.deployments.deploy p.sha256 package.name package.version environment
        timestamp actorId = .ok manager)
      (hsettles : Settles { packed with deployments := manager } v incumbent timestamp state')

inductive RollsBack (state : LifecycleState) (environment : String) (timestamp : ℚ)
    (state' : LifecycleState) : Prop
  | mk (target : String × ℤ) (package : ReleasePackage) (v : StrategyVersion)
      (outgoing : Option StrategyVersion) (manager : DeploymentManager) (actorId : String)
      (htarget : state.deployments.previousRelease environment = some target)
      (houtgoing : state.activeStrategyVersion environment = .ok outgoing)
      (hget : state.deployments.getRelease target.1 target.2 = .ok package)
      (hnamed : state.versionNamed package = .ok (some v))
      (hrollback : state.deployments.rollback environment timestamp actorId = .ok manager)
      (hsettles : Settles { state with deployments := manager } v outgoing timestamp state')

section
variable {p : LifecyclePlatform} {state state' : LifecycleState} {governance : Governance}
  {name environment deployedBy notes : String} {version : ℤ} {timestamp : ℚ} {ref : DeploymentRef}

theorem retireIfIdle_ok {outgoing : Option StrategyVersion} {reason : String}
    (h : state.retireIfIdle outgoing reason timestamp = .ok state') :
    Retires state outgoing reason timestamp state' := by
  cases outgoing with
  | none =>
    obtain rfl := ok_inj.mp h
    exact .kept fun out hout => nomatch hout
  | some out =>
    simp only [retireIfIdle] at h
    split_ifs at h with hstage
    · obtain rfl := ok_inj.mp h
      refine .kept fun other hother hproduction => ?_
      obtain rfl := Option.mem_some_iff.mp hother
      exact absurd hproduction hstage
    · obtain ⟨running, hrunning, h⟩ := bind_ok.mp h
      split_ifs at h with hidle
      · obtain rfl := pure_ok.mp h
        refine .kept fun other hother _ => ?_
        obtain rfl := Option.mem_some_iff.mp hother
        exact ⟨running, hrunning, hidle⟩
      · obtain rfl := pure_ok.mp h
        exact .idle out rfl (not_not.mp hstage) (not_not.mp hidle ▸ hrunning)

theorem noteModelDeployment_ok {v : StrategyVersion}
    (h : state.noteModelDeployment v environment timestamp deployedBy notes = .ok state') :
    ∃ models, state' = { state with models := models } := by
  rw [noteModelDeployment] at h
  cases hmodel : v.model with
  | none =>
    rw [hmodel] at h
    exact ⟨state.models, (ok_inj.mp h).symm⟩
  | some ref =>
    rw [hmodel] at h
    obtain ⟨models, -, h⟩ := bind_ok.mp h
    exact ⟨models, (pure_ok.mp h).symm⟩

theorem deployStrategyVersion_ok
    (h : state.deployStrategyVersion p governance name version environment timestamp deployedBy
      notes = .ok (state', ref)) : Deploys p state name version environment timestamp state' := by
  obtain ⟨actorId, -, h⟩ := bind_ok.mp h
  obtain ⟨_, -, h⟩ := bind_ok.mp h
  obtain ⟨v, hget, h⟩ := bind_ok.mp h
  obtain ⟨_, -, h⟩ := bind_ok.mp h
  obtain ⟨incumbent, hincumbent, h⟩ := bind_ok.mp h
  obtain ⟨_, hdiffers, h⟩ := bind_ok.mp h
  obtain ⟨_, -, h⟩ := bind_ok.mp h
  obtain ⟨_, -, h⟩ := bind_ok.mp h
  obtain ⟨⟨packed, package⟩, hrelease, h⟩ := bind_ok.mp h
  obtain ⟨manager, hdeploy, h⟩ := bind_ok.mp h
  obtain ⟨settled, hretire, h⟩ := bind_ok.mp h
  obtain ⟨noted, hnote, h⟩ := bind_ok.mp h
  obtain ⟨placedAt, -, h⟩ := bind_ok.mp h
  obtain ⟨rfl, -⟩ := Prod.ext_iff.mp (ok_inj.mp h)
  obtain ⟨models, rfl⟩ := noteModelDeployment_ok hnote
  exact ⟨v, incumbent, packed, package, manager, actorId, hget, hincumbent,
    require_ok.mp hdiffers, hrelease, hdeploy, ⟨_, _, _, settled, models, retireIfIdle_ok hretire⟩⟩

theorem rollbackEnvironment_ok
    (h : state.rollbackEnvironment governance environment timestamp deployedBy notes =
      .ok (state', ref)) : RollsBack state environment timestamp state' := by
  obtain ⟨actorId, -, h⟩ := bind_ok.mp h
  obtain ⟨target, htarget, h⟩ := bind_ok.mp h
  obtain ⟨outgoing, houtgoing, h⟩ := bind_ok.mp h
  obtain ⟨package, hget, h⟩ := bind_ok.mp h
  obtain ⟨named, hnamed, h⟩ := bind_ok.mp h
  obtain ⟨v, hv, h⟩ := bind_ok.mp h
  obtain ⟨_, -, h⟩ := bind_ok.mp h
  obtain ⟨manager, hrollback, h⟩ := bind_ok.mp h
  obtain ⟨settled, hretire, h⟩ := bind_ok.mp h
  obtain ⟨noted, hnote, h⟩ := bind_ok.mp h
  obtain ⟨placedAt, -, h⟩ := bind_ok.mp h
  obtain ⟨rfl, -⟩ := Prod.ext_iff.mp (ok_inj.mp h)
  obtain ⟨models, rfl⟩ := noteModelDeployment_ok hnote
  obtain rfl := orRefuse_ok.mp hv
  exact ⟨target, package, v, outgoing, manager, actorId, orRefuse_ok.mp htarget, houtgoing, hget,
    hnamed, hrollback, ⟨_, _, _, settled, models, retireIfIdle_ok hretire⟩⟩

end

inductive Moves (p : LifecyclePlatform) (state : LifecycleState) :
    LifecycleCall → LifecycleState → Prop
  | registerModelVersion {name timestamp runId} (models : ModelRegistry) :
      Moves p state (.registerModelVersion name timestamp runId) { state with models := models }
  | registerStrategy {name definition timestamp model runId tags}
      (registry : StrategyVersionRegistry) (v : StrategyVersion)
      (h : state.strategies.registerStrategyVersion name definition timestamp model runId tags =
        .ok (registry, v)) :
      Moves p state (.registerStrategy name definition timestamp model runId tags)
        { state with strategies := registry }
  | recordEvidence {evidence} (recorded : Dict String ValidationEvidence) :
      Moves p state (.recordEvidence evidence) { state with evidence := recorded }
  | promote {governance name version policy evidenceId timestamp} (v : StrategyVersion)
      (reason actorId : String) (hget : state.strategies.getStrategyVersion name version = .ok v)
      (hlegal : v.stage ≠ .production) :
      Moves p state (.promote governance name version policy evidenceId timestamp)
        (state.recordStageChange v .staging reason timestamp (some evidenceId)
          (some policy.policyId) actorId)
  | approve {governance name version environment timestamp note} (record : ApprovalRecord)
      (hat : record.timestamp = timestamp) :
      Moves p state (.approve governance name version environment timestamp note)
        { state with approvals := state.approvals ++ [record] }
  | retire {governance name version timestamp reason} (v : StrategyVersion) (actorId : String)
      (hget : state.strategies.getStrategyVersion name version = .ok v)
      (hidle : state.environmentsRunning name version = .ok []) :
      Moves p state (.retire governance name version timestamp reason)
        (state.recordStageChange v .archived reason timestamp none none actorId)
  | deploy {governance name version environment timestamp deployedBy notes state'}
      (h : Deploys p state name version environment timestamp state') :
      Moves p state (.deploy governance name version environment timestamp deployedBy notes) state'
  | rollback {governance environment timestamp deployedBy notes state'}
      (h : RollsBack state environment timestamp state') :
      Moves p state (.rollback governance environment timestamp deployedBy notes) state'
  | between {experiments models} :
      Moves p state (.between experiments models)
        { state with experiments := experiments, models := models }

theorem call_moves {p : LifecyclePlatform} {state state' : LifecycleState} {c : LifecycleCall}
    (h : state.call p c = .ok state') : Moves p state c state' := by
  have hmap : ∀ {α : Type} {x : Except LifecycleRefusal (LifecycleState × α)},
      x.map Prod.fst = .ok state' → ∃ a, x = .ok (state', a) := by
    intro α x hx
    cases x with
    | error e => cases hx
    | ok out => exact ⟨out.2, congrArg Except.ok (Prod.ext (ok_inj.mp hx) rfl)⟩
  cases c with
  | registerModelVersion name timestamp runId =>
    obtain ⟨ref, h⟩ := hmap h
    obtain ⟨_, -, h⟩ := bind_ok.mp h
    obtain ⟨registered, -, h⟩ := bind_ok.mp h
    obtain ⟨made, -, h⟩ := bind_ok.mp h
    obtain ⟨rfl, -⟩ := Prod.ext_iff.mp (ok_inj.mp h)
    exact .registerModelVersion _
  | registerStrategy name definition timestamp model runId tags =>
    obtain ⟨ref, h⟩ := hmap h
    obtain ⟨_, -, h⟩ := bind_ok.mp h
    obtain ⟨_, -, h⟩ := bind_ok.mp h
    obtain ⟨⟨registry, v⟩, hregister, h⟩ := bind_ok.mp h
    obtain ⟨rfl, -⟩ := Prod.ext_iff.mp (ok_inj.mp h)
    exact .registerStrategy registry v hregister
  | recordEvidence evidence =>
    change state.recordEvidence evidence = _ at h
    rw [recordEvidence] at h
    cases hget : state.evidence.get? evidence.evidenceId with
    | none =>
      rw [hget] at h
      obtain rfl := ok_inj.mp h
      exact .recordEvidence _
    | some existing =>
      rw [hget] at h
      obtain ⟨_, -, h⟩ := bind_ok.mp h
      obtain rfl := pure_ok.mp h
      exact .recordEvidence state.evidence
  | promote governance name version policy evidenceId timestamp =>
    obtain ⟨actorId, -, h⟩ := bind_ok.mp h
    obtain ⟨v, hget, h⟩ := bind_ok.mp h
    obtain ⟨_, hlegal, h⟩ := bind_ok.mp h
    obtain ⟨_, -, h⟩ := bind_ok.mp h
    obtain ⟨failures, -, h⟩ := bind_ok.mp h
    obtain ⟨_, -, h⟩ := bind_ok.mp h
    obtain rfl := pure_ok.mp h
    refine .promote v _ actorId hget ?_
    -- no version leaves production for staging
    intro hstage
    rw [refuseIllegalMove, hstage] at hlegal
    cases hlegal
  | approve governance name version environment timestamp note =>
    obtain ⟨approverId, -, h⟩ := bind_ok.mp h
    obtain ⟨_, -, h⟩ := bind_ok.mp h
    obtain ⟨strategy, -, h⟩ := bind_ok.mp h
    obtain rfl := pure_ok.mp h
    exact .approve _ rfl
  | retire governance name version timestamp reason =>
    obtain ⟨actorId, -, h⟩ := bind_ok.mp h
    obtain ⟨v, hget, h⟩ := bind_ok.mp h
    obtain ⟨_, -, h⟩ := bind_ok.mp h
    obtain ⟨running, hrunning, h⟩ := bind_ok.mp h
    obtain ⟨_, hidle, h⟩ := bind_ok.mp h
    obtain rfl := pure_ok.mp h
    exact .retire v actorId hget (require_ok.mp hidle ▸ hrunning)
  | deploy governance name version environment timestamp deployedBy notes =>
    obtain ⟨ref, h⟩ := hmap h
    exact .deploy (deployStrategyVersion_ok h)
  | rollback governance environment timestamp deployedBy notes =>
    obtain ⟨ref, h⟩ := hmap h
    exact .rollback (rollbackEnvironment_ok h)
  | between experiments models =>
    obtain rfl := ok_inj.mp h
    exact .between

end LifecycleState

end AlphaLab
