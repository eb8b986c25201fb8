/-
  Release packages and the ledger of what is active where (`deployment_manager/`).

  Releases are packaged line by line, version `v` being the `v`-th of its line, and
  every deployment is recorded twice: in the ledger, and in the history of its
  environment.  `package?` is the release a name and version stand for; the functions
  read only it, the histories and their last records.
-/
import AlphaLab.Lifecycle.Identity

namespace AlphaLab

open Fallible

/-- `ReleasePackage`: one versioned release manifest. -/
structure ReleasePackage where
  name : String
  version : ℤ
  components : Dict String String
  config : Dict String String
  checksum : String
  createdAt : ℚ

/-- `compute_checksum`: the digest of a manifest. -/
def computeChecksum (sha256 : String → String) (components config : Dict String String) : String :=
  let line : String × String → String := fun e => e.1 ++ "=" ++ e.2
  sha256 ("\n".intercalate (["components"] ++ (sortedEntries components).map line ++ ["config"] ++
    (sortedEntries config).map line))

/-- `build_release`: a package with its checksum computed. -/
def buildRelease (sha256 : String → String) (name : String) (version : ℤ)
    (components config : Dict String String) (timestamp : ℚ) :
    Except LifecycleRefusal ReleasePackage := do
  require (blank name = false) (.deploymentManager "name")
  require (0 < version) (.deploymentManager "version")
  require (components.entries ≠ []) (.deploymentManager "components")
  return {
    name := name
    version := version
    components := components
    config := config
    checksum := computeChecksum sha256 components config
    createdAt := timestamp }

def verifyChecksum (sha256 : String → String) (package : ReleasePackage) : Bool :=
  package.checksum = computeChecksum sha256 package.components package.config

variable {sha256 : String → String}

variable {name : String} {version : ℤ} {timestamp : ℚ} {package : ReleasePackage}

/-- A package built is what it was built of, and its checksum verifies. -/
theorem buildRelease_ok {components config : Dict String String}
    (h : buildRelease sha256 name version components config timestamp = .ok package) :
    package.name = name ∧ package.version = version ∧ package.components = components ∧
      blank name = false ∧ verifyChecksum sha256 package = true := by
  obtain ⟨_, hnamed, h⟩ := bind_ok.mp h
  obtain ⟨_, _, h⟩ := bind_ok.mp h
  obtain ⟨_, _, h⟩ := bind_ok.mp h
  obtain rfl := Except.ok.inj h
  exact ⟨rfl, rfl, rfl, require_ok.mp hnamed, decide_eq_true rfl⟩

/-! ## The ledger -/

structure DeploymentRecord where
  environment : String
  releaseName : String
  version : ℤ
  replacedVersion : Option ℤ
  isRollback : Bool
  timestamp : ℚ
  actorId : String

def DeploymentRecord.release (record : DeploymentRecord) : String × ℤ :=
  (record.releaseName, record.version)

/-- `DeploymentManager`: every registered release and every deployment. -/
structure DeploymentManager where
  releases : Dict String (List ReleasePackage) := Dict.empty
  deployments : List DeploymentRecord := []
  environments : Dict String (List DeploymentRecord) := Dict.empty

namespace DeploymentManager

variable (manager : DeploymentManager)

def line (name : String) : List ReleasePackage := (manager.releases.get? name).getD []

def history (environment : String) : List DeploymentRecord :=
  (manager.environments.get? environment).getD []

/-- `register_release`: the next version of a release line. -/
def registerRelease (sha256 : String → String) (name : String)
    (components config : Dict String String) (timestamp : ℚ) :
    Except LifecycleRefusal (DeploymentManager × ReleasePackage) := do
  let existing := manager.line name
  let package ← buildRelease sha256 name (existing.length + 1) components config timestamp
  return ({ manager with releases := manager.releases.set name (existing ++ [package]) }, package)

def getRelease (name : String) (version : ℤ) : Except LifecycleRefusal ReleasePackage := do
  require (manager.line name ≠ []) (.deploymentManager "no such release")
  require (¬ (version < 1 ∨ (manager.line name).length < version))
    (.deploymentManager "no such version")
  orRefuse (manager.line name)[(version - 1).toNat]? (.deploymentManager "no such version")

/-- `active_release`: the release an environment's newest record names. -/
def activeRelease (environment : String) : Except LifecycleRefusal (Option ReleasePackage) :=
  match (manager.history environment).getLast? with
  | none => .ok none
  | some record => do return some (← manager.getRelease record.releaseName record.version)

/-- `deployed_environments`: the environments deployed to, in first-seen order. -/
def deployedEnvironments : List String := manager.environments.keys

/-- `record_deployment`: one more record, in the ledger and in its environment's history. -/
def recordDeployment (environment : String) (release : ReleasePackage) (isRollback : Bool)
    (timestamp : ℚ) (actorId : String) : Except LifecycleRefusal DeploymentManager := do
  let incumbent ← manager.activeRelease environment
  let record : DeploymentRecord := {
    environment := environment
    releaseName := release.name
    version := release.version
    replacedVersion := incumbent.map (·.version)
    isRollback := isRollback
    timestamp := timestamp
    actorId := actorId }
  return { manager with
    deployments := manager.deployments ++ [record]
    environments :=
      manager.environments.set environment (manager.history environment ++ [record]) }

/-- `deploy`: a release becomes the active one of an environment. -/
def deploy (sha256 : String → String) (name : String) (version : ℤ) (environment : String)
    (timestamp : ℚ) (actorId : String) : Except LifecycleRefusal DeploymentManager := do
  require (blank environment = false) (.deploymentManager "environment")
  let release ← manager.getRelease name version
  require (verifyChecksum sha256 release = true) (.deploymentManager "checksum")
  let incumbent ← manager.activeRelease environment
  require (¬ ∃ active ∈ incumbent, active.name = name ∧ active.version = version)
    (.deploymentManager "already active")
  manager.recordDeployment environment release false timestamp actorId

/-- `previous_release`: what was active in an environment before the current release. -/
def previousRelease (environment : String) : Option (String × ℤ) :=
  match (manager.history environment).reverse with
  | _ :: prior :: _ => some prior.release
  | _ => none

/-- `rollback`: the previous release of an environment, active again. -/
def rollback (environment : String) (timestamp : ℚ) (actorId : String) :
    Except LifecycleRefusal DeploymentManager := do
  let active ← manager.activeRelease environment
  require (active ≠ none) (.deploymentManager "no active release")
  let (name, version) ← orRefuse (manager.previousRelease environment)
    (.deploymentManager "no previous release")
  let release ← manager.getRelease name version
  manager.recordDeployment environment release true timestamp actorId

/-! ## What is read -/

def package? (name : String) (version : ℤ) : Option ReleasePackage :=
  if 1 ≤ version then (manager.line name)[(version - 1).toNat]? else none

def active? (environment : String) : Option ReleasePackage :=
  (manager.history environment).getLast?.bind fun record =>
    manager.package? record.releaseName record.version

variable {manager}

theorem getRelease_ok :
    manager.getRelease name version = .ok package ↔
      manager.package? name version = some package := by
  constructor
  · intro h
    obtain ⟨_, _, h⟩ := bind_ok.mp h
    obtain ⟨_, hversion, h⟩ := bind_ok.mp h
    have hrange := require_ok.mp hversion
    push Not at hrange
    rw [package?, if_pos hrange.1]
    exact orRefuse_ok.mp h
  · intro h
    rw [package?] at h
    split_ifs at h with hversion
    obtain ⟨hlt, -⟩ := List.getElem?_eq_some_iff.mp h
    have hline : manager.line name ≠ [] := by
      intro hnil
      simp [hnil] at hlt
    have hrange : ¬ (version < 1 ∨ ((manager.line name).length : ℤ) < version) := by omega
    exact bind_ok.mpr ⟨(), require_ok.mpr hline,
      bind_ok.mpr ⟨(), require_ok.mpr hrange, orRefuse_ok.mpr h⟩⟩

variable {manager' : DeploymentManager}

theorem registerRelease_ok {components config : Dict String String}
    (h : manager.registerRelease sha256 name components config timestamp = .ok (manager', package))
    :
    manager' = { manager with
        releases := manager.releases.set name (manager.line name ++ [package]) } ∧
      package.name = name ∧ package.version = (manager.line name).length + 1 ∧
      package.components = components ∧ blank name = false ∧
      verifyChecksum sha256 package = true := by
  obtain ⟨built, hbuild, h⟩ := bind_ok.mp h
  obtain ⟨rfl, rfl⟩ := Prod.ext_iff.mp (Except.ok.inj h)
  exact ⟨rfl, buildRelease_ok hbuild⟩

theorem package?_append (name : String) (package : ReleasePackage)
    (hversion : package.version = (manager.line name).length + 1) (line : String) (version : ℤ) :
    package? { manager with
        releases := manager.releases.set name (manager.line name ++ [package]) } line version =
      if line = name ∧ version = package.version then some package
      else manager.package? line version := by
  by_cases hline : line = name
  · subst hline
    simp only [package?, DeploymentManager.line, Dict.get?_set_self, Option.getD_some, true_and]
    change (if 1 ≤ version then (manager.line line ++ [package])[(version - 1).toNat]? else none) =
      if version = package.version then some package
      else if 1 ≤ version then (manager.line line)[(version - 1).toNat]? else none
    by_cases hlast : version = package.version
    · have hindex : (version - 1).toNat = (manager.line line).length := by omega
      rw [if_pos hlast, if_pos (by omega), hindex]
      simp
    · rw [if_neg hlast]
      split_ifs with hpos
      · rw [List.getElem?_append]
        split_ifs with hlt
        · rfl
        · have hpast : (manager.line line).length < (version - 1).toNat := by omega
          rw [List.getElem?_eq_none_iff.mpr (by simp; omega),
            List.getElem?_eq_none_iff.mpr (by omega)]
      · rfl
  · rw [if_neg (by simp [hline])]
    simp only [package?, DeploymentManager.line, Dict.get?_set, if_neg hline]

theorem package?_next (name : String) :
    manager.package? name ((manager.line name).length + 1) = none := by
  rw [package?]
  split_ifs
  · rw [List.getElem?_eq_none_iff]
    omega
  · rfl

variable {environment : String}

theorem activeRelease_eq {active : Option ReleasePackage}
    (h : manager.activeRelease environment = .ok active) :
    active = manager.active? environment := by
  rw [activeRelease] at h
  rw [active?]
  cases hlast : (manager.history environment).getLast? with
  | none =>
    rw [hlast] at h
    exact (Except.ok.inj h).symm
  | some record =>
    rw [hlast] at h
    obtain ⟨package, hget, h⟩ := bind_ok.mp h
    rw [← Except.ok.inj h]
    exact (getRelease_ok.mp hget).symm

theorem activeRelease_total (h : ∀ record ∈ manager.history environment, (manager.package?
      record.releaseName record.version).isSome) :
    manager.activeRelease environment = .ok (manager.active? environment) := by
  rw [activeRelease, active?]
  cases hlast : (manager.history environment).getLast? with
  | none => rfl
  | some record =>
    obtain ⟨package, hpackage⟩ :=
      Option.isSome_iff_exists.mp (h record (List.mem_of_getLast? hlast))
    change (manager.getRelease record.releaseName record.version >>= _) = _
    rw [getRelease_ok.mpr hpackage]
    exact congrArg Except.ok hpackage.symm

variable {actorId : String}

theorem recordDeployment_ok {release : ReleasePackage} {isRollback : Bool}
    (h : manager.recordDeployment environment release isRollback timestamp actorId = .ok manager') :
    ∃ record : DeploymentRecord, record.environment = environment ∧
      record.release = (release.name, release.version) ∧
      manager' = { manager with
        deployments := manager.deployments ++ [record]
        environments :=
          manager.environments.set environment (manager.history environment ++ [record]) } := by
  obtain ⟨incumbent, _, h⟩ := bind_ok.mp h
  exact ⟨_, rfl, rfl, (Except.ok.inj h).symm⟩

theorem deploy_ok
    (h : manager.deploy sha256 name version environment timestamp actorId = .ok manager') :
    blank environment = false ∧ ∃ release active,
      manager.package? name version = some release ∧
      manager.activeRelease environment = .ok active ∧
      (¬ ∃ package ∈ active, package.name = name ∧ package.version = version) ∧
      manager.recordDeployment environment release false timestamp actorId = .ok manager' := by
  obtain ⟨_, hplaced, h⟩ := bind_ok.mp h
  obtain ⟨release, hrelease, h⟩ := bind_ok.mp h
  obtain ⟨_, _, h⟩ := bind_ok.mp h
  obtain ⟨active, hactive, h⟩ := bind_ok.mp h
  obtain ⟨_, hother, h⟩ := bind_ok.mp h
  exact ⟨require_ok.mp hplaced, release, active, getRelease_ok.mp hrelease, hactive,
    require_ok.mp hother, h⟩

theorem rollback_ok (h : manager.rollback environment timestamp actorId = .ok manager') :
    ∃ target release, manager.previousRelease environment = some target ∧
      manager.package? target.1 target.2 = some release ∧
      manager.recordDeployment environment release true timestamp actorId = .ok manager' := by
  obtain ⟨active, _, h⟩ := bind_ok.mp h
  obtain ⟨_, _, h⟩ := bind_ok.mp h
  obtain ⟨target, htarget, h⟩ := bind_ok.mp h
  obtain ⟨release, hrelease, h⟩ := bind_ok.mp h
  exact ⟨target, release, orRefuse_ok.mp htarget, getRelease_ok.mp hrelease, h⟩

theorem previousRelease_eq_some {target : String × ℤ} :
    manager.previousRelease environment = some target ↔
      ∃ earlier prior last, manager.history environment = earlier ++ [prior, last] ∧
        prior.release = target := by
  rw [previousRelease]
  constructor
  · intro h
    split at h
    · next last prior earlier hreverse =>
      refine ⟨earlier.reverse, prior, last, ?_, Option.some.inj h⟩
      rw [← List.reverse_reverse (manager.history environment), hreverse]
      simp
    · cases h
  · rintro ⟨earlier, prior, last, hhistory, rfl⟩
    rw [hhistory]
    simp

end DeploymentManager

end AlphaLab
