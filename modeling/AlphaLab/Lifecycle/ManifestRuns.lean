/-
  What is deployed is what the strategy version packages as (`lifecycle/deployment.py`).

  * `Restaged` says that the versions of a state are those of another, at other stages;
  * `Manifested` says that every package is the manifest of the version it names, on some
    evidence; every call keeps it (`call_manifested`);
  * `EvidenceStands` says that the package registered for a version names the evidence that the
    version has: `deploy_runs_manifest_iff`, `rollback_runs_manifest_iff`: what is put in an
    environment is what its version packages as iff it does.
-/
import AlphaLab.Lifecycle.LedgerRuns
import AlphaLab.Lifecycle.Manifests

namespace AlphaLab

open Fallible

variable {package : ReleasePackage}

variable {version : ℤ}

namespace LifecycleState

variable {p : LifecyclePlatform} {state state' : LifecycleState} {v : StrategyVersion}

/-! ## Versions at other stages -/

/-- The versions of a state are those of another, at other stages. -/
def Restaged (state state' : LifecycleState) : Prop :=
  ∀ v, state.Registered v → ∃ stage, state'.Registered { v with stage := stage }

theorem Restaged.refl (state : LifecycleState) : Restaged state state := fun v hv => ⟨v.stage, hv⟩

theorem Restaged.trans {state'' : LifecycleState} (h : Restaged state state')
    (h' : Restaged state' state'') : Restaged state state'' := by
  intro v hv
  obtain ⟨stage, hstage⟩ := h v hv
  obtain ⟨stage', hstage'⟩ := h' _ hstage
  exact ⟨stage', hstage'⟩

theorem Restaged.of_strategies (h : state'.strategies = state.strategies) :
    Restaged state state' := by
  intro v hv
  refine ⟨v.stage, ?_⟩
  rw [Registered, h]
  exact hv

variable {reason actorId : String}

theorem restaged_recordStageChange {toStage : ModelStage} {timestamp : ℚ}
    (hv : ∃ stage, state.Registered { v with stage := stage }) :
    Restaged state (state.recordStageChange v toStage reason timestamp none none actorId) := by
  obtain ⟨stage, hv⟩ := hv
  intro w hw
  by_cases hmine : w.name = v.name ∧ w.version = v.version
  · obtain rfl : w = { v with stage := stage } :=
      eq_of_rendered hw hv (rendered_eq hmine.1 hmine.2)
    refine ⟨toStage, ?_⟩
    rw [Registered, version?_recordStageChange, if_pos ⟨rfl, rfl⟩]
    rfl
  · refine ⟨w.stage, ?_⟩
    rw [Registered, version?_recordStageChange, if_neg hmine]
    exact hw

theorem releaseManifest_restaged (p : LifecyclePlatform) (v : StrategyVersion)
    (stage : ModelStage) : releaseManifest p { v with stage := stage } = releaseManifest p v := rfl

theorem releaseManifest_evidence (p : LifecyclePlatform) (v : StrategyVersion) :
    (releaseManifest p v).1.get? componentEvidence = v.evidenceId := by
  have hstrategy : componentEvidence ≠ componentStrategy := by decide
  have hmodel : componentEvidence ≠ componentModel := by decide
  have hrun : componentEvidence ≠ componentRun := by decide
  rw [releaseManifest]
  cases v.model <;> cases v.runId <;> cases v.evidenceId <;>
    simp [Dict.get?_set, hstrategy, hmodel, hrun]

theorem strategy_of_manifest {evidenceId : Option String}
    (h : package.manifest = releaseManifest p { v with evidenceId := evidenceId }) :
    package.components.get? componentStrategy = some v.rendered := by
  have hnamed := releaseManifest_strategy p { v with evidenceId := evidenceId }
  rw [← h] at hnamed
  exact hnamed

variable (p state) in
/-- Every package is the manifest of a registered version of its line, on some evidence. -/
def Manifested : Prop :=
  ∀ name version package, state.deployments.package? name version = some package →
    ∃ v evidenceId, state.Registered v ∧ v.name = name ∧
      package.manifest = releaseManifest p { v with evidenceId := evidenceId }

theorem Manifested.mono (h : state.Manifested p)
    (hpackages : state'.deployments.package? = state.deployments.package?)
    (hversions : ∀ v, state.Registered v → ∃ stage evidenceId policyId,
      state'.Registered { v with stage := stage, evidenceId := evidenceId, policyId := policyId }) :
    state'.Manifested p := by
  intro name version package hpackage
  rw [hpackages] at hpackage
  obtain ⟨v, evidenceId, hv, hname, hmanifest⟩ := h name version package hpackage
  obtain ⟨stage, evidence, policyId, hv'⟩ := hversions v hv
  exact ⟨_, evidenceId, hv', hname, hmanifest⟩

theorem Manifested.restaged (h : state.Manifested p)
    (hpackages : state'.deployments.package? = state.deployments.package?)
    (hversions : Restaged state state') : state'.Manifested p := by
  refine h.mono hpackages fun v hv => ?_
  obtain ⟨stage, hv'⟩ := hversions v hv
  exact ⟨stage, v.evidenceId, v.policyId, hv'⟩

/-! ## What puts a release in an environment -/

variable {outgoing : Option StrategyVersion}

theorem Retires.restaged {timestamp : ℚ} (h : Retires state outgoing reason timestamp state')
    (hout : ∀ out ∈ outgoing, ∃ stage, state.Registered { out with stage := stage }) :
    Restaged state state' ∧ state'.deployments = state.deployments := by
  cases h with
  | kept _ => exact ⟨.refl _, rfl⟩
  | idle out houtgoing _ _ => exact ⟨restaged_recordStageChange (hout out houtgoing), rfl⟩

/-- What an environment is given is what runs there. -/
theorem active?_recordDeployment {manager manager' : DeploymentManager} {environment : String}
    {release : ReleasePackage} {isRollback : Bool} {timestamp : ℚ}
    (hrelease : manager.package? release.name release.version = some release)
    (h : manager.recordDeployment environment release isRollback timestamp actorId = .ok manager') :
    manager'.active? environment = some release ∧ manager'.package? = manager.package? := by
  obtain ⟨record, -, hnames, rfl⟩ := DeploymentManager.recordDeployment_ok h
  obtain ⟨hname, hversion⟩ := Prod.ext_iff.mp hnames
  simp only [DeploymentRecord.release] at hname hversion
  refine ⟨?_, rfl⟩
  rw [DeploymentManager.active?, DeploymentManager.history]
  simp only [Dict.get?_set_self, Option.getD_some, List.getLast?_concat, Option.bind_some]
  rw [hname, hversion]
  exact hrelease

/-- **The end of a deployment or a rollback**: stages are moved, and no package. -/
theorem Settles.restaged {placed : LifecycleState} {timestamp : ℚ}
    (h : Settles placed v outgoing timestamp state') (hv : state.Registered v)
    (hout : ∀ out ∈ outgoing, state.Registered out) (hplaced : placed.strategies = state.strategies)
    : Restaged state state' ∧ state'.deployments = placed.deployments := by
  obtain ⟨why, whyOut, actorId, settled, models, hretires⟩ := h
  have hstart : Restaged state placed := .of_strategies hplaced
  have hmoved : Restaged placed (if v.stage ≠ .production then
      placed.recordStageChange v .production why timestamp none none actorId else placed) := by
    split_ifs
    · exact restaged_recordStageChange (hstart v hv)
    · exact .refl _
  have hdeployments : (if v.stage ≠ .production then
      placed.recordStageChange v .production why timestamp none none actorId
        else placed).deployments = placed.deployments := by
    split_ifs <;> rfl
  obtain ⟨hsettled, hsame⟩ :=
    hretires.restaged fun out ho => (hstart.trans hmoved) out (hout out ho)
  exact ⟨((hstart.trans hmoved).trans hsettled).trans (.of_strategies rfl),
    hsame.trans hdeployments⟩

theorem Kept.incumbent_registered (hkept : state.Kept) {environment : String}
    {incumbent : Option StrategyVersion}
    (h : state.activeStrategyVersion environment = .ok incumbent) :
    ∀ out ∈ incumbent, state.Registered out := by
  intro out hout
  obtain rfl := Option.mem_def.mp hout
  rcases hkept.activeStrategyVersion environment with ⟨hnone, -⟩ | ⟨w, -, hw, hregistered, -⟩
  · rw [h] at hnone
    cases hnone
  · rw [h] at hw
    obtain rfl := Option.some.inj (Except.ok.inj hw)
    exact hregistered

variable (state) in
def EvidenceStands (v : StrategyVersion) : Prop :=
  ∀ version package, state.releases.get? v.rendered = some version →
    state.deployments.package? v.name version = some package →
      package.components.get? componentEvidence = v.evidenceId

/-- **The package standing for a version** is its manifest, on the evidence it was registered
    with. -/
theorem releaseFor_manifested {timestamp : ℚ} (hkept : state.Kept)
    (hmanifested : state.Manifested p) (hv : state.Registered v)
    (h : state.releaseFor p v timestamp = .ok (state', package)) :
    state'.Manifested p ∧
      (∃ evidenceId, package.manifest = releaseManifest p { v with evidenceId := evidenceId }) ∧
      (package.components.get? componentEvidence = v.evidenceId ↔ state.EvidenceStands v) := by
  obtain ⟨-, -, hstrategies, -, hpackage, hcomponent⟩ := releaseFor_kept hkept hv h
  rw [releaseFor] at h
  cases hrelease : state.releases.get? v.rendered with
  | some existing =>
    rw [hrelease] at h
    obtain ⟨found, hfound, h⟩ := bind_ok.mp h
    obtain ⟨rfl, rfl⟩ := Prod.ext_iff.mp (Except.ok.inj h)
    have hfound := DeploymentManager.getRelease_ok.mp hfound
    refine ⟨hmanifested, ?_, ?_⟩
    · obtain ⟨w, evidenceId, hw, -, hmanifest⟩ := hmanifested _ _ _ hfound
      have hnamed := strategy_of_manifest hmanifest
      obtain rfl : w = v := eq_of_rendered hw hv (Option.some.inj (hnamed.symm.trans hcomponent))
      exact ⟨evidenceId, hmanifest⟩
    · constructor
      · intro hevidence version other hversion hother
        obtain rfl := Option.some.inj (hrelease.symm.trans hversion)
        obtain rfl := Option.some.inj (hfound.symm.trans hother)
        exact hevidence
      · exact fun hstands => hstands existing _ hrelease hfound
  | none =>
    rw [hrelease] at h
    obtain ⟨⟨manager, built⟩, hregister, h⟩ := bind_ok.mp h
    obtain ⟨rfl, rfl⟩ := Prod.ext_iff.mp (Except.ok.inj h)
    have hmanifest : built.manifest = releaseManifest p v := by
      obtain ⟨_, hbuild, hregister⟩ := bind_ok.mp hregister
      obtain ⟨-, rfl⟩ := Prod.ext_iff.mp (Except.ok.inj hregister)
      exact (buildRelease_config hbuild).1
    obtain ⟨-, -, hname, -, -, hread⟩ :=
      DeploymentManager.registerRelease_kept hkept.deployments hregister
    refine ⟨?_, ⟨v.evidenceId, hmanifest⟩, ?_⟩
    · intro line version other hother
      change manager.package? line version = some other at hother
      rw [hread] at hother
      split_ifs at hother with hnew
      · obtain rfl := Option.some.inj hother
        exact ⟨v, v.evidenceId, hv, hnew.1.symm, hmanifest⟩
      · exact hmanifested line version other hother
    · refine iff_of_true ?_ ?_
      · have hevidence := releaseManifest_evidence p v
        rwa [← hmanifest] at hevidence
      · intro version other hversion
        rw [hrelease] at hversion
        cases hversion

variable (p state) in
def RunsItsManifest (environment : String) : Prop :=
  ∃ package v, state.deployments.active? environment = some package ∧
    state.activeStrategyVersion environment = .ok (some v) ∧
    SameManifest package.manifest (releaseManifest p v)

/-- What an environment is given is what its version packages as iff it names the version's
    evidence. -/
theorem runsItsManifest_iff {environment : String} (hkept : state'.Kept)
    (hactive : state'.deployments.active? environment = some package)
    (hrestaged : Restaged state state') (hv : state.Registered v)
    (hcomponent : package.components.get? componentStrategy = some v.rendered) (hmanifest : ∃
      evidenceId, package.manifest = releaseManifest p { v with evidenceId := evidenceId }) :
    state'.RunsItsManifest p environment ↔
      package.components.get? componentEvidence = v.evidenceId := by
  obtain ⟨stage, hv'⟩ := hrestaged v hv
  obtain ⟨w, hw, hrunning, hregistered⟩ : ∃ w, w = { v with stage := stage } ∧
      state'.activeStrategyVersion environment = .ok (some w) ∧ state'.Registered w := by
    rcases hkept.activeStrategyVersion environment with
      ⟨-, hnone⟩ | ⟨w, other, hrunning, hregistered, -, hother, hnamed⟩
    · rw [hactive] at hnone
      cases hnone
    · obtain rfl := Option.some.inj (hactive.symm.trans hother)
      rw [hcomponent] at hnamed
      exact ⟨w, eq_of_rendered hregistered hv' (Option.some.inj hnamed).symm, hrunning,
        hregistered⟩
  obtain ⟨evidenceId, hmanifest⟩ := hmanifest
  have hnames : package.components.get? componentEvidence = evidenceId := by
    have hevidence := releaseManifest_evidence p { v with evidenceId := evidenceId }
    rwa [← hmanifest] at hevidence
  constructor
  · rintro ⟨other, x, hother, hx, hsame, -⟩
    obtain rfl := Option.some.inj (hactive.symm.trans hother)
    rw [hrunning] at hx
    obtain rfl := Option.some.inj (Except.ok.inj hx)
    have hevidence := hsame componentEvidence
    rw [releaseManifest_evidence, hw] at hevidence
    exact hevidence
  · intro hevidence
    refine ⟨package, w, hactive, hrunning, ?_⟩
    obtain rfl : evidenceId = v.evidenceId := hnames.symm.trans hevidence
    rw [hmanifest, hw, releaseManifest_restaged]
    exact ⟨fun _ => rfl, fun _ => rfl⟩

/-- What an accepted deployment does, as far as packages and versions go. -/
theorem Deploys.placed {name environment : String} {timestamp : ℚ}
    (h : Deploys p state name version environment timestamp state') (hkept : state.Kept) :
    ∃ v packed package, state.strategies.getStrategyVersion name version = .ok v ∧
      state.Registered v ∧ state.releaseFor p v timestamp = .ok (packed, package) ∧
      Restaged packed state' ∧ state'.deployments.package? = packed.deployments.package? ∧
      state'.deployments.active? environment = some package := by
  obtain ⟨v, incumbent, packed, package, manager, actorId, hget, hincumbent, -, hrelease, hdeploy,
    hsettles⟩ := h
  obtain ⟨-, -, hv⟩ := registered_of_version? hkept.strategies
    (StrategyVersionRegistry.getStrategyVersion_ok.mp hget)
  obtain ⟨-, -, hstrategies, -, hpackage, -⟩ := releaseFor_kept hkept hv hrelease
  have hpacked : ∀ w, packed.Registered w ↔ state.Registered w := by
    intro w
    rw [Registered, Registered, hstrategies]
  obtain ⟨-, release, active, hfound, -, -, hrecord⟩ := DeploymentManager.deploy_ok hdeploy
  obtain rfl := Option.some.inj (hpackage.symm.trans hfound)
  obtain ⟨hactive, hpackages⟩ := active?_recordDeployment hpackage hrecord
  obtain ⟨hrestaged, hdeployments⟩ := hsettles.restaged ((hpacked _).mpr hv)
    (fun out ho => (hpacked out).mpr (hkept.incumbent_registered hincumbent out ho)) rfl
  refine ⟨v, packed, package, hget, hv, hrelease, hrestaged, ?_, ?_⟩
  · rw [hdeployments]
    exact hpackages
  · rw [hdeployments]
    exact hactive

/-- What an accepted rollback does, as far as packages and versions go. -/
theorem RollsBack.placed {environment : String} {timestamp : ℚ}
    (h : RollsBack state environment timestamp state') (hkept : state.Kept) :
    ∃ target package v, state.deployments.previousRelease environment = some target ∧
      state.deployments.package? target.1 target.2 = some package ∧
      state.versionNamed package = .ok (some v) ∧ state.Registered v ∧
      Restaged state state' ∧ state'.deployments.package? = state.deployments.package? ∧
      state'.deployments.active? environment = some package := by
  obtain ⟨target, package, v, outgoing, manager, actorId, htarget, houtgoing, hget, hnamed,
    hrollback, hsettles⟩ := h
  have hpackage := DeploymentManager.getRelease_ok.mp hget
  obtain ⟨w, hw, hregistered, -, -⟩ := hkept.versionNamed hpackage
  obtain rfl := Option.some.inj (ok_inj.mp (hnamed.symm.trans hw))
  obtain ⟨target', release, htarget', hrelease, hrecord⟩ := DeploymentManager.rollback_ok hrollback
  obtain rfl := Option.some.inj (htarget.symm.trans htarget')
  obtain rfl := Option.some.inj (hpackage.symm.trans hrelease)
  obtain ⟨hname, hversion⟩ := hkept.deployments.packaged _ _ _ hpackage
  obtain ⟨hactive, hpackages⟩ :=
    active?_recordDeployment (by rw [hname, hversion]; exact hpackage) hrecord
  obtain ⟨hrestaged, hdeployments⟩ :=
    hsettles.restaged hregistered (hkept.incumbent_registered houtgoing) rfl
  refine ⟨target, package, _, htarget, hpackage, hnamed, hregistered, hrestaged, ?_, ?_⟩
  · rw [hdeployments]
    exact hpackages
  · rw [hdeployments]
    exact hactive

/-! ## Runs -/

/-- **One call** leaves every package the manifest of its version. -/
theorem call_manifested {c : LifecycleCall} (hkept : state.Kept) (hmanifested : state.Manifested p)
    (h : state.call p c = .ok state') : state'.Manifested p := by
  cases call_moves h with
  | registerModelVersion | recordEvidence | approve | between =>
    exact hmanifested.restaged rfl (.of_strategies rfl)
  | registerStrategy registry v hregister =>
    obtain ⟨-, hreplace, -, hfresh⟩ :=
      StrategyVersionRegistry.registerStrategyVersion_kept hkept.strategies hregister
    refine hmanifested.restaged rfl fun w hw => ⟨w.stage, ?_⟩
    change registry.version? w.name w.version = some w
    rw [hreplace, StrategyVersionRegistry.version?_replace, if_neg]
    · exact hw
    · rintro ⟨hname, hversion⟩
      rw [Registered, hname, hversion, hfresh] at hw
      cases hw
  | @promote _ _ _ policy evidenceId _ v reason actorId hget hlegal =>
    obtain ⟨-, -, hv⟩ := registered_of_version? hkept.strategies
      (StrategyVersionRegistry.getStrategyVersion_ok.mp hget)
    refine hmanifested.mono rfl fun w hw => ?_
    by_cases hmine : w.name = v.name ∧ w.version = v.version
    · obtain rfl : w = v := eq_of_rendered hw hv (rendered_eq hmine.1 hmine.2)
      refine ⟨.staging, some evidenceId, some policy.policyId, ?_⟩
      rw [Registered, version?_recordStageChange, if_pos ⟨rfl, rfl⟩]
      rfl
    · refine ⟨w.stage, w.evidenceId, w.policyId, ?_⟩
      rw [Registered, version?_recordStageChange, if_neg hmine]
      exact hw
  | retire v actorId hget hidle =>
    obtain ⟨-, -, hv⟩ := registered_of_version? hkept.strategies
      (StrategyVersionRegistry.getStrategyVersion_ok.mp hget)
    exact hmanifested.restaged rfl (restaged_recordStageChange ⟨v.stage, hv⟩)
  | deploy h =>
    obtain ⟨v, packed, package, -, hv, hrelease, hrestaged, hpackages, -⟩ := h.placed hkept
    exact (releaseFor_manifested hkept hmanifested hv hrelease).1.restaged hpackages hrestaged
  | rollback h =>
    obtain ⟨target, package, v, -, -, -, -, hrestaged, hpackages, -⟩ := h.placed hkept
    exact hmanifested.restaged hpackages hrestaged

end LifecycleState

theorem LifecycleReached.manifested {p : LifecyclePlatform} {state : LifecycleState}
    (h : LifecycleReached p state) : state.Manifested p := by
  have hboth : state.Kept ∧ state.Manifested p := by
    refine h.invariant (fun s => s.Kept ∧ s.Manifested p) ⟨LifecycleState.kept_empty, ?_⟩ ?_
    · intro name version package hpackage
      obtain ⟨ref, -, hsome, -⟩ :=
        LifecycleState.kept_empty.packed.packages name version package hpackage
      cases hsome
    · rintro s c s' ⟨hkept, hmanifested⟩ - hcall
      exact ⟨LifecycleState.call_kept hkept hcall,
        LifecycleState.call_manifested hkept hmanifested hcall⟩
  exact hboth.2

section
variable {p : LifecyclePlatform} {state state' : LifecycleState} {governance : Governance}
  {environment : String} {timestamp : ℚ} {deployedBy notes : String} {ref : DeploymentRef}

variable {name : String}

/-- **What is deployed is what was validated** iff the package standing for the version names the
    evidence the version has. -/
theorem deploy_runs_manifest_iff (hreached : LifecycleReached p state) {v : StrategyVersion}
    (hget : state.strategies.getStrategyVersion name version = .ok v)
    (h : state.deployStrategyVersion p governance name version environment timestamp deployedBy
      notes = .ok (state', ref)) :
    state'.RunsItsManifest p environment ↔ state.EvidenceStands v := by
  have hkept := hreached.kept
  obtain ⟨w, packed, package, hw, hv, hrelease, hrestaged, -, hactive⟩ :=
    (LifecycleState.deployStrategyVersion_ok h).placed hkept
  obtain rfl := Except.ok.inj (hget.symm.trans hw)
  obtain ⟨-, -, hstrategies, -, -, hcomponent⟩ :=
    LifecycleState.releaseFor_kept hkept hv hrelease
  obtain ⟨-, hmanifest, hstands⟩ :=
    LifecycleState.releaseFor_manifested hkept hreached.manifested hv hrelease
  have hstart : LifecycleState.Restaged state state' :=
    (LifecycleState.Restaged.of_strategies hstrategies).trans hrestaged
  rw [← hstands]
  exact LifecycleState.runsItsManifest_iff ((LifecycleState.deployStrategyVersion_ok h).kept hkept)
    hactive hstart hv hcomponent hmanifest

theorem rollback_runs_manifest_iff (hreached : LifecycleReached p state) {target : String × ℤ}
    {v : StrategyVersion} (htarget : state.deployments.previousRelease environment = some target)
    (hpackage : state.deployments.getRelease target.1 target.2 = .ok package)
    (hnamed : state.versionNamed package = .ok (some v)) (h : state.rollbackEnvironment governance
      environment timestamp deployedBy notes = .ok (state', ref)) :
    state'.RunsItsManifest p environment ↔ state.EvidenceStands v := by
  have hkept := hreached.kept
  obtain ⟨target', package', w, htarget', hfound, hnamed', hv, hrestaged, -, hactive⟩ :=
    (LifecycleState.rollbackEnvironment_ok h).placed hkept
  obtain rfl := Option.some.inj (htarget.symm.trans htarget')
  have hread := DeploymentManager.getRelease_ok.mp hpackage
  obtain rfl := Option.some.inj (hread.symm.trans hfound)
  obtain rfl := Option.some.inj (Except.ok.inj (hnamed.symm.trans hnamed'))
  obtain ⟨u, hu, huv, huname, hcomponent⟩ := hkept.versionNamed hread
  obtain rfl := Option.some.inj (Except.ok.inj (hnamed.symm.trans hu))
  obtain ⟨x, evidenceId, hx, -, hmanifest⟩ := hreached.manifested _ _ _ hread
  have hsame : x = v := by
    have hrendered := LifecycleState.strategy_of_manifest hmanifest
    exact LifecycleState.eq_of_rendered hx hv (Option.some.inj (hrendered.symm.trans hcomponent))
  subst hsame
  rw [LifecycleState.runsItsManifest_iff ((LifecycleState.rollbackEnvironment_ok h).kept hkept).1
    hactive hrestaged hv hcomponent ⟨evidenceId, hmanifest⟩]
  -- the package stands for its version alone
  obtain ⟨r, hrname, -, hrcomponent, hrversion⟩ := hkept.packed.packages _ _ _ hread
  have hrender : r.render = x.rendered := Option.some.inj (hrcomponent.symm.trans hcomponent)
  rw [hrender] at hrversion
  constructor
  · intro hevidence version other hversion hother
    obtain rfl := Option.some.inj (hrversion.symm.trans hversion)
    rw [huname] at hother
    obtain rfl := Option.some.inj (hread.symm.trans hother)
    exact hevidence
  · exact fun hstands => hstands target.2 _ hrversion (by rw [huname]; exact hread)

end

/-- A package that `build_release` made. -/
def Built (p : LifecyclePlatform) (package : ReleasePackage) : Prop :=
  ∃ name version components config timestamp,
    buildRelease p.sha256 name version components config timestamp = .ok package

theorem Built.checksum {p : LifecyclePlatform} (h : Built p package) :
    package.checksum = computeChecksum p.sha256 package.manifest.1 package.manifest.2 := by
  obtain ⟨name, version, components, config, timestamp, h⟩ := h
  obtain ⟨hmanifest, hchecksum⟩ := buildRelease_config h
  rw [hmanifest]
  exact hchecksum

/-- **What is deployed is what was validated**, where no two texts have one digest: a release put
    in an environment is what its version packages as iff the package standing for the version
    names the version's evidence, and a checksum tells a manifest from another, or from what it is
    edited to, iff the two are cut alike, as plain ones are. -/
theorem deployed_as_validated_iff (p : LifecyclePlatform) (hsha : Function.Injective p.sha256) :
    (∀ state, LifecycleReached p state →
      (∀ governance name version environment timestamp deployedBy notes state' ref v,
        state.strategies.getStrategyVersion name version = .ok v →
        state.deployStrategyVersion p governance name version environment timestamp deployedBy
          notes = .ok (state', ref) →
        (state'.RunsItsManifest p environment ↔ state.EvidenceStands v)) ∧
      ∀ governance environment timestamp deployedBy notes state' ref target package v,
        state.deployments.previousRelease environment = some target →
        state.deployments.getRelease target.1 target.2 = .ok package →
        state.versionNamed package = .ok (some v) →
        state.rollbackEnvironment governance environment timestamp deployedBy notes =
          .ok (state', ref) →
        (state'.RunsItsManifest p environment ↔ state.EvidenceStands v)) ∧
    (∀ first second : ReleasePackage, Built p first → Built p second →
      ((first.checksum = second.checksum → SameManifest first.manifest second.manifest) ↔
        DividedAlike first.manifest second.manifest)) ∧
    (∀ package : ReleasePackage, Built p package → ∀ edited : Manifest,
      ((verifyChecksum p.sha256 { package with
          components := edited.1
          config := edited.2 } = true → SameManifest package.manifest edited) ↔
        DividedAlike package.manifest edited)) ∧
    ∀ a b : Manifest, a.Plain → b.Plain → DividedAlike a b := by
  refine ⟨fun state hreached => ⟨?_, ?_⟩, ?_, ?_, fun a b => dividedAlike_of_plain⟩
  · intro governance name version environment timestamp deployedBy notes state' ref v hget h
    exact deploy_runs_manifest_iff hreached hget h
  · intro governance environment timestamp deployedBy notes state' ref target package v htarget
      hpackage hnamed h
    exact rollback_runs_manifest_iff hreached htarget hpackage hnamed h
  · intro first second hfirst hsecond
    rw [hfirst.checksum, hsecond.checksum]
    exact checksum_tells_iff hsha _ _
  · intro package hbuilt edited
    rw [← checksum_tells_iff hsha, ← hbuilt.checksum]
    simp only [verifyChecksum, decide_eq_true_eq]

/-! A version is promoted again on other evidence, and deployed again. -/

def laterEvidence : ValidationEvidence where
  evidenceId := evidenceIdFor plainPlatform .external "ma@1" "later prices" none measured
  method := .external
  subject := "ma@1"
  datasetId := "later prices"
  metrics := measured
  seed := none
  producedAt := 0
  sourceId := ""
  identified := by decide +kernel
  about := by decide +kernel

def displacedCalls : List LifecycleCall :=
  [.registerStrategy "ma" {} 1 none none Dict.empty,
    .registerStrategy "ma" {} 1 none none Dict.empty,
    .recordEvidence (maEvidence false), .recordEvidence (maEvidence true),
    .promote operator "ma" 1 sharpePolicy (maEvidence false).evidenceId 2,
    .promote operator "ma" 2 sharpePolicy (maEvidence true).evidenceId 2,
    .deploy operator "ma" 1 "paper" 3 "" "", .deploy operator "ma" 2 "paper" 4 "" ""]

def promotedAgain : List LifecycleCall :=
  displacedCalls ++ [.recordEvidence laterEvidence,
    .promote operator "ma" 1 sharpePolicy laterEvidence.evidenceId 5]

def twoLines : Manifest := (Dict.empty.set "a" "1\nb=2", Dict.empty)

def twoComponents : Manifest := ((Dict.empty.set "a" "1").set "b" "2", Dict.empty)

/-- **Deployed on evidence that was replaced**: the version's package is the one registered when
    it was first deployed. And a checksum that two manifests share. -/
theorem redeployed_on_replaced_evidence :
    (∃ state state' ref, LifecycleReached plainPlatform state ∧
      state.deployStrategyVersion plainPlatform operator "ma" 1 "paper" 6 "" "" =
        .ok (state', ref) ∧ ¬ state'.RunsItsManifest plainPlatform "paper") ∧
    ∃ first second : ReleasePackage, Built plainPlatform first ∧ Built plainPlatform second ∧
      first.checksum = second.checksum ∧ ¬ SameManifest first.manifest second.manifest := by
  constructor
  · obtain ⟨state, hstate, hdeployed⟩ := exists_ok_of
      (x := promotedAgain.foldlM (LifecycleState.call plainPlatform) {})
      (fun state => (state.deployStrategyVersion plainPlatform operator "ma" 1 "paper" 6 ""
        "").toOption.any (fun out => decide (
          (out.1.deployments.active? "paper").map (·.components.get? componentEvidence) =
              some (some (maEvidence false).evidenceId) ∧
            (out.1.activeStrategyVersion "paper").toOption.map (·.map (·.evidenceId)) =
              some (some (some laterEvidence.evidenceId)))) = true) (by decide +kernel)
    obtain ⟨⟨state', ref⟩, hdeploy, hnamed, hevidence⟩ := exists_ok_of
      (fun out : LifecycleState × DeploymentRef =>
        (out.1.deployments.active? "paper").map (·.components.get? componentEvidence) =
            some (some (maEvidence false).evidenceId) ∧
          (out.1.activeStrategyVersion "paper").toOption.map (·.map (·.evidenceId)) =
            some (some (some laterEvidence.evidenceId))) hdeployed
    refine ⟨state, state', ref, Runs.of_foldlM hstate fun _ _ _ => trivial, hdeploy, ?_⟩
    rintro ⟨package, v, hactive, hrunning, hsame, -⟩
    simp only [hactive, hrunning, Except.toOption, Option.map_some, Option.some.injEq]
      at hnamed hevidence
    have heq := hsame componentEvidence
    rw [LifecycleState.releaseManifest_evidence, hevidence] at heq
    exact absurd (hnamed.symm.trans heq) (by decide +kernel)
  · obtain ⟨first, hfirst, hone⟩ := exists_ok_of
      (x := buildRelease plainPlatform.sha256 "ma" 1 twoLines.1 twoLines.2 0)
      (fun package => package.checksum = manifestText twoLines ∧ package.manifest = twoLines)
      (by decide +kernel)
    obtain ⟨second, hsecond, htwo⟩ := exists_ok_of
      (x := buildRelease plainPlatform.sha256 "ma" 2 twoComponents.1 twoComponents.2 0)
      (fun package => package.checksum = manifestText twoLines ∧ package.manifest = twoComponents)
      (by decide +kernel)
    refine ⟨first, second, ⟨_, _, _, _, _, hfirst⟩, ⟨_, _, _, _, _, hsecond⟩,
      hone.1.trans htwo.1.symm, ?_⟩
    rw [hone.2, htwo.2]
    rintro ⟨hcomponents, -⟩
    exact absurd (hcomponents "b") (by decide +kernel)

/-- Deployed for the first time, a version runs as its manifest says. -/
theorem first_deployment_runs_its_manifest :
    ∃ state state' ref, LifecycleReached plainPlatform state ∧
      state.deployStrategyVersion plainPlatform operator "ma" 1 "paper" 3 "" "" =
        .ok (state', ref) ∧ state'.RunsItsManifest plainPlatform "paper" := by
  obtain ⟨state, hstate, hfresh, hdeployed⟩ := exists_ok_of
    (x := (displacedCalls.take 6).foldlM (LifecycleState.call plainPlatform) {})
    (fun state => (state.strategies.getStrategyVersion "ma" 1).toOption.any (fun v =>
        decide (state.releases.get? v.rendered = none)) = true ∧
      (state.deployStrategyVersion plainPlatform operator "ma" 1 "paper" 3 "" "").toOption.isSome =
        true) (by decide +kernel)
  obtain ⟨v, hget, hnone⟩ := exists_ok_of
    (fun v : StrategyVersion => state.releases.get? v.rendered = none) hfresh
  obtain ⟨⟨state', ref⟩, hdeploy⟩ := Option.isSome_iff_exists.mp hdeployed
  have hok : state.deployStrategyVersion plainPlatform operator "ma" 1 "paper" 3 "" "" =
      .ok (state', ref) := by
    revert hdeploy
    cases state.deployStrategyVersion plainPlatform operator "ma" 1 "paper" 3 "" "" with
    | error e => exact fun h => nomatch h
    | ok out => exact fun h => congrArg Except.ok (Option.some.inj h)
  have hreached : LifecycleReached plainPlatform state :=
    Runs.of_foldlM hstate fun _ _ _ => trivial
  have hiff := ((deployed_as_validated_iff plainPlatform Function.injective_id).1 state
    hreached).1 operator "ma" 1 "paper" 3 "" "" state' ref v hget hok
  refine ⟨state, state', ref, hreached, hok, hiff.mpr fun version package hversion => ?_⟩
  rw [hnone] at hversion
  cases hversion

end AlphaLab
