/-
  What the lifecycle's registries keep, and what is then read of them.

  * `StrategyVersionRegistry.Kept`: every version is filed under its own name and within
    its line, and the promotion log replays each from `NONE` to the stage it has;
  * `DeploymentManager.Kept`: the histories are the ledger read environment by
    environment, every release named is registered, and no environment is given the
    release it runs;
  * `LifecycleState.Kept`: besides, every package names one registered version, and
    exactly the versions some environment runs are in production.
-/
import AlphaLab.Lib.Slots
import AlphaLab.Lifecycle.Calls

namespace AlphaLab

open Fallible

/-! ## Strategy versions -/

namespace StrategyVersionRegistry

variable {registry : StrategyVersionRegistry} {name : String} {version : ℤ} {v : StrategyVersion}

def version? (registry : StrategyVersionRegistry) (name : String) (version : ℤ) :
    Option StrategyVersion :=
  (registry.line name).get? version

def moves (registry : StrategyVersionRegistry) (name : String) (version : ℤ) :
    List (ModelStage × ModelStage) :=
  (registry.promotions.filter fun r => r.name = name ∧ r.version = version).map fun r =>
    (r.fromStage, r.toStage)

/-- The versions are filed in their lines, and the log replays each to its stage. -/
structure Kept (registry : StrategyVersionRegistry) : Prop where
  filed : ∀ name version v, registry.version? name version = some v →
    v.name = name ∧ v.version ≤ (registry.line name).values.length
  recorded : ∀ r ∈ registry.promotions, (registry.version? r.name r.version).isSome
  replayed : ∀ name version v, registry.version? name version = some v →
    Slots.Trail .none (registry.moves name version) v.stage

theorem version_of_version? (h : registry.version? name version = some v) : v.version = version :=
  (registry.line name).keyed version v h

theorem getStrategyVersion_ok :
    registry.getStrategyVersion name version = .ok v ↔ registry.version? name version = some v := by
  constructor
  · intro h
    obtain ⟨_, _, h⟩ := bind_ok.mp h
    exact orRefuse_ok.mp h
  · intro h
    have hmem : v ∈ (registry.line name).values := by
      rw [Register.mem_values, version_of_version? h]
      exact h
    exact bind_ok.mpr ⟨(), require_ok.mpr (List.ne_nil_of_mem hmem), orRefuse_ok.mpr h⟩

theorem kept_empty : Kept {} where
  filed := by
    intro name version v h
    cases h
  recorded := by
    intro r hr
    cases hr
  replayed := by
    intro name version v h
    cases h

theorem version?_replace (updated : StrategyVersion) (name : String) (version : ℤ) :
    (registry.replaceStrategyVersion updated).version? name version =
      if name = updated.name ∧ version = updated.version then some updated
      else registry.version? name version := by
  by_cases hname : name = updated.name
  · subst hname
    simp only [version?, line, replaceStrategyVersion, Dict.get?_set_self, Option.getD_some,
      Register.get?_put, true_and]
  · simp only [version?, line, replaceStrategyVersion, Dict.get?_set_of_ne _ _ hname, hname,
      false_and, if_false]

theorem length_line_replace (updated : StrategyVersion) (name : String) :
    ((registry.replaceStrategyVersion updated).line name).values.length =
      (registry.line name).values.length +
        if name = updated.name ∧ registry.version? name updated.version = none then 1 else 0 := by
  by_cases hname : name = updated.name
  · subst hname
    have hline : (registry.replaceStrategyVersion updated).line updated.name =
        (registry.line updated.name).put updated := by
      simp only [line, replaceStrategyVersion, Dict.get?_set_self, Option.getD_some]
    rw [hline, version?]
    cases hold : (registry.line updated.name).get? updated.version with
    | none => simp [Register.values_put_new hold]
    | some old => simp [Register.values_put_old hold]
  · simp only [line, replaceStrategyVersion, Dict.get?_set_of_ne _ _ hname, hname, false_and,
      if_false, add_zero]

/-- **A version that is registered** starts at `NONE`, under a number of its own. -/
theorem registerStrategyVersion_kept {definition : StrategyDefinition} {timestamp : ℚ}
    {model : Option ModelRef} {runId : Option String} {tags : Dict String String}
    {registry' : StrategyVersionRegistry} (hkept : registry.Kept)
    (h : registry.registerStrategyVersion name definition timestamp model runId tags =
      .ok (registry', v)) :
    registry'.Kept ∧ registry' = registry.replaceStrategyVersion v ∧ v.stage = .none ∧
      registry.version? v.name v.version = none := by
  rw [registerStrategyVersion] at h
  split_ifs at h with hnamed hseparator
  obtain ⟨hregistry, hv⟩ := Prod.ext_iff.mp (Except.ok.inj h)
  simp only at hregistry hv
  have hname : v.name = name := by rw [← hv]
  have hnumber : v.version = (registry.line name).values.length + 1 := by rw [← hv]
  have hstage : v.stage = .none := by rw [← hv]
  have hreplace : registry' = registry.replaceStrategyVersion v := by
    rw [← hregistry, hv, ← hname]
    rfl
  have hfresh : registry.version? v.name v.version = none := by
    rw [Option.eq_none_iff_forall_ne_some]
    intro w hw
    have hle := (hkept.filed _ _ _ hw).2
    rw [version_of_version? hw, hname] at hle
    omega
  refine ⟨⟨?_, ?_, ?_⟩, hreplace, hstage, hfresh⟩
  · intro n k w hw
    rw [hreplace, version?_replace] at hw
    rw [hreplace, length_line_replace]
    split_ifs at hw with hnew
    · obtain rfl := Option.some.inj hw
      rw [if_pos ⟨hnew.1, by rw [hnew.1]; exact hfresh⟩, hnew.1, hnumber, hname]
      exact ⟨rfl, by push_cast; omega⟩
    · have hold := hkept.filed n k w hw
      exact ⟨hold.1, by push_cast; split_ifs <;> omega⟩
  · intro r hr
    rw [hreplace] at hr ⊢
    rw [version?_replace]
    split_ifs
    · rfl
    · exact hkept.recorded r hr
  · intro n k w hw
    have hmoves : registry'.moves n k = registry.moves n k := by rw [hreplace]; rfl
    rw [hmoves]
    rw [hreplace, version?_replace] at hw
    split_ifs at hw with hnew
    · obtain rfl := Option.some.inj hw
      -- no stage change of the new version has been recorded
      have hnil : registry.moves n k = [] := by
        rw [moves, List.map_eq_nil_iff, List.filter_eq_nil_iff]
        intro r hr hmine
        have hsome := hkept.recorded r hr
        obtain ⟨hrname, hrversion⟩ := of_decide_eq_true hmine
        rw [hrname, hrversion, hnew.1, hnew.2, hfresh] at hsome
        cases hsome
      rw [hnil, hstage]
      rfl
    · exact hkept.replayed n k w hw

end StrategyVersionRegistry

/-! ## The ledger -/

variable {package : ReleasePackage}

namespace DeploymentManager

variable {manager manager' : DeploymentManager}

/-- The histories are the ledger's, and no environment is given what it runs. -/
structure Kept (manager : DeploymentManager) : Prop where
  packaged : ∀ name version package, manager.package? name version = some package →
    package.name = name ∧ package.version = version
  indexed : ∀ environment, manager.history environment =
    manager.deployments.filter (·.environment = environment)
  named : ∀ record ∈ manager.deployments,
    (manager.package? record.releaseName record.version).isSome
  unrepeated : ∀ environment,
    ((manager.history environment).map (·.release)).IsChain (· ≠ ·)

theorem kept_empty : Kept {} where
  packaged := by
    intro name version package h
    rw [package?] at h
    split_ifs at h
    cases h
  indexed _ := rfl
  named := by
    intro record h
    cases h
  unrepeated _ := List.isChain_nil

variable {environment : String}

theorem Kept.named_history (hkept : manager.Kept) {record : DeploymentRecord}
    (h : record ∈ manager.history environment) :
    (manager.package? record.releaseName record.version).isSome := by
  rw [hkept.indexed] at h
  exact hkept.named record (List.mem_filter.mp h).1

theorem Kept.activeRelease (hkept : manager.Kept) (environment : String) :
    manager.activeRelease environment = .ok (manager.active? environment) :=
  activeRelease_total fun _ h => hkept.named_history h

/-- The release that is active is the one the last record names. -/
theorem Kept.active?_eq_some (hkept : manager.Kept) (h : manager.active? environment = some package)
    :
    ∃ record, (manager.history environment).getLast? = some record ∧
      record.release = (package.name, package.version) ∧
      manager.package? package.name package.version = some package := by
  obtain ⟨record, hlast, hpackage⟩ := Option.bind_eq_some_iff.mp h
  obtain ⟨hname, hversion⟩ := hkept.packaged _ _ _ hpackage
  refine ⟨record, hlast, by rw [DeploymentRecord.release, hname, hversion], ?_⟩
  rw [hname, hversion]
  exact hpackage

theorem Kept.active?_eq_none (hkept : manager.Kept) :
    manager.active? environment = none ↔ manager.history environment = [] := by
  rw [active?]
  cases hlast : (manager.history environment).getLast? with
  | none => simpa using List.getLast?_eq_none_iff.mp hlast
  | some record =>
    have hmem := List.mem_of_getLast? hlast
    obtain ⟨package, hpackage⟩ := Option.isSome_iff_exists.mp (hkept.named_history hmem)
    simp [hpackage, List.ne_nil_of_mem hmem]

theorem mem_deployedEnvironments (h : manager.history environment ≠ []) :
    environment ∈ manager.deployedEnvironments := by
  rw [deployedEnvironments, Dict.mem_keys_iff]
  cases hget : manager.environments.get? environment with
  | none =>
    rw [history, hget] at h
    exact absurd rfl h
  | some history => exact ⟨history, rfl⟩

/-- **A package registered** changes nothing of what is active. -/
theorem registerRelease_kept {sha256 : String → String} {name : String}
    {components config : Dict String String} {timestamp : ℚ} (hkept : manager.Kept)
    (h : manager.registerRelease sha256 name components config timestamp = .ok (manager', package))
    :
    manager'.Kept ∧ (∀ environment, manager'.active? environment = manager.active? environment) ∧
      package.name = name ∧ package.components = components ∧
      manager.package? name package.version = none ∧
      ∀ line version, manager'.package? line version =
        if line = name ∧ version = package.version then some package
        else manager.package? line version := by
  obtain ⟨hmanager, hname, hversion, hcomponents, -, -⟩ := registerRelease_ok h
  have hread : ∀ line version, manager'.package? line version =
      if line = name ∧ version = package.version then some package
      else manager.package? line version := by
    rw [hmanager]
    exact package?_append name package hversion
  have hfresh : manager.package? name package.version = none := by
    rw [hversion]
    exact package?_next name
  have hhistory : ∀ environment, manager'.history environment = manager.history environment := by
    intro environment
    rw [hmanager]
    rfl
  -- a release that is there is read as before
  have hold : ∀ line version, (manager.package? line version).isSome →
      manager'.package? line version = manager.package? line version := by
    intro line version hsome
    rw [hread, if_neg]
    rintro ⟨rfl, rfl⟩
    rw [hfresh] at hsome
    cases hsome
  refine ⟨⟨?_, ?_, ?_, ?_⟩, ?_, hname, hcomponents, hfresh, hread⟩
  · intro line version other hother
    rw [hread] at hother
    split_ifs at hother with hnew
    · obtain rfl := Option.some.inj hother
      exact ⟨hname.trans hnew.1.symm, hnew.2.symm⟩
    · exact hkept.packaged line version other hother
  · intro environment
    rw [hhistory, hmanager]
    exact hkept.indexed environment
  · intro record hrecord
    have hsome : (manager.package? record.releaseName record.version).isSome := by
      rw [hmanager] at hrecord
      exact hkept.named record hrecord
    rw [hold _ _ hsome]
    exact hsome
  · intro environment
    rw [hhistory]
    exact hkept.unrepeated environment
  · intro environment
    rw [active?, active?, hhistory]
    cases hlast : (manager.history environment).getLast? with
    | none => rfl
    | some record =>
      exact hold _ _ (hkept.named_history (List.mem_of_getLast? hlast))

/-- **A release recorded** in an environment that runs another is what it runs. -/
theorem recordDeployment_kept {release : ReleasePackage} {isRollback : Bool} {timestamp : ℚ}
    {actorId : String} (hkept : manager.Kept)
    (h : manager.recordDeployment environment release isRollback timestamp actorId = .ok manager')
    (hrelease : manager.package? release.name release.version = some release) (hother : ∀ record ∈
      (manager.history environment).getLast?, record.release ≠ (release.name, release.version)) :
    manager'.Kept ∧ manager'.active? = Slots.put manager.active? environment release ∧
      manager'.package? = manager.package? := by
  obtain ⟨record, hplace, hnames, rfl⟩ := recordDeployment_ok h
  have hhistory : ∀ e, history { manager with
      deployments := manager.deployments ++ [record]
      environments :=
        manager.environments.set environment (manager.history environment ++ [record]) } e =
      if e = environment then manager.history environment ++ [record] else manager.history e := by
    intro e
    by_cases he : e = environment
    · subst he
      simp [history]
    · simp [history, Dict.get?_set_of_ne, he]
  refine ⟨⟨hkept.packaged, ?_, ?_, ?_⟩, ?_, rfl⟩
  · intro e
    rw [hhistory, List.filter_append, ← hkept.indexed e]
    split_ifs with he
    · subst he
      simp [hplace]
    · have hne : ¬ record.environment = e := fun hsame => he (hsame.symm.trans hplace)
      simp [hne]
  · intro r hr
    rcases List.mem_append.mp hr with hr | hr
    · exact hkept.named r hr
    · obtain rfl := List.mem_singleton.mp hr
      obtain ⟨hname, hversion⟩ := Prod.ext_iff.mp hnames
      simp only [DeploymentRecord.release] at hname hversion
      change (manager.package? r.releaseName r.version).isSome
      rw [hname, hversion, hrelease]
      rfl
  · intro e
    rw [hhistory]
    split_ifs with he
    · rw [List.map_append]
      refine Slots.isChain_concat (hkept.unrepeated environment) ?_
      intro last hlast
      rw [List.getLast?_map] at hlast
      obtain ⟨r, hr, rfl⟩ := Option.map_eq_some_iff.mp hlast
      change r.release ≠ record.release
      rw [hnames]
      exact hother r hr
    · exact hkept.unrepeated e
  · funext e
    rw [active?, hhistory]
    by_cases he : e = environment
    · subst he
      obtain ⟨hname, hversion⟩ := Prod.ext_iff.mp hnames
      simp only [DeploymentRecord.release] at hname hversion
      rw [if_pos rfl, List.getLast?_concat, Slots.put_self]
      change manager.package? record.releaseName record.version = some release
      rw [hname, hversion, hrelease]
    · rw [if_neg he, Slots.put_of_ne _ _ he]
      rfl

end DeploymentManager

namespace LifecycleState

variable {p : LifecyclePlatform} {state : LifecycleState} {v : StrategyVersion}

def Registered (state : LifecycleState) (v : StrategyVersion) : Prop :=
  state.strategies.version? v.name v.version = some v

section
variable {toStage : ModelStage} {reason : String} {timestamp : ℚ}
  {evidenceId policyId : Option String} {actorId : String}

def movedTo (v : StrategyVersion) (toStage : ModelStage) (evidenceId policyId : Option String) :
    StrategyVersion :=
  { v with
    stage := toStage
    evidenceId := evidenceId <|> v.evidenceId
    policyId := policyId <|> v.policyId }

/-- What is read after a stage change: the version at its new stage, and the others. -/
theorem version?_recordStageChange (name : String) (version : ℤ) :
    (state.recordStageChange v toStage reason timestamp evidenceId policyId
      actorId).strategies.version? name version =
      if name = v.name ∧ version = v.version then some (movedTo v toStage evidenceId policyId)
      else state.strategies.version? name version :=
  StrategyVersionRegistry.version?_replace (movedTo v toStage evidenceId policyId) name version

/-- **A stage change** extends the promotion log of its version, and of no other. -/
theorem recordStageChange_kept (hkept : state.strategies.Kept) (hv : state.Registered v) :
    (state.recordStageChange v toStage reason timestamp evidenceId policyId
      actorId).strategies.Kept := by
  set changed := state.recordStageChange v toStage reason timestamp evidenceId policyId actorId
    with hchanged
  have hread : ∀ n k, changed.strategies.version? n k =
      if n = v.name ∧ k = v.version then some (movedTo v toStage evidenceId policyId)
      else state.strategies.version? n k :=
    version?_recordStageChange
  refine ⟨?_, ?_, ?_⟩
  · intro n k w hw
    have hlength : (changed.strategies.line n).values.length =
        (state.strategies.line n).values.length := by
      have hline := @StrategyVersionRegistry.length_line_replace state.strategies
        (movedTo v toStage evidenceId policyId) n
      have hold : ¬ (n = (movedTo v toStage evidenceId policyId).name ∧
          state.strategies.version? n (movedTo v toStage evidenceId policyId).version = none) := by
        rintro ⟨rfl, hnone⟩
        have hsome : state.strategies.version? v.name v.version = none := hnone
        rw [hv] at hsome
        cases hsome
      rw [if_neg hold] at hline
      exact hline
    rw [hlength]
    rw [hread] at hw
    split_ifs at hw with hmine
    · obtain rfl := Option.some.inj hw
      rw [hmine.1]
      exact ⟨rfl, (hkept.filed _ _ _ hv).2⟩
    · exact hkept.filed n k w hw
  · intro r hr
    rw [hread]
    split_ifs with hmine
    · rfl
    · rcases List.mem_append.mp hr with hr | hr
      · exact hkept.recorded r hr
      · obtain rfl := List.mem_singleton.mp hr
        exact absurd ⟨rfl, rfl⟩ hmine
  · intro n k w hw
    rw [hread] at hw
    split_ifs at hw with hmine
    · obtain rfl := Option.some.inj hw
      have hmoves : changed.strategies.moves n k =
          state.strategies.moves n k ++ [(v.stage, toStage)] := by
        obtain ⟨rfl, rfl⟩ := hmine
        simp [StrategyVersionRegistry.moves, hchanged, recordStageChange,
          StrategyVersionRegistry.replaceStrategyVersion]
      rw [hmoves]
      obtain ⟨rfl, rfl⟩ := hmine
      exact (hkept.replayed _ _ _ hv).concat
    · have hmoves : changed.strategies.moves n k = state.strategies.moves n k := by
        have hother : ¬ (v.name = n ∧ v.version = k) := by
          rintro ⟨rfl, rfl⟩
          exact hmine ⟨rfl, rfl⟩
        simp [StrategyVersionRegistry.moves, hchanged, recordStageChange,
          StrategyVersionRegistry.replaceStrategyVersion, hother]
      rw [hmoves]
      exact hkept.replayed n k w hw

end

/-! ## What runs where -/

variable (state) in
/-- The strategy version an environment runs, as its release names it. -/
def holds (environment : String) : Option String :=
  (state.deployments.active? environment).bind (·.components.get? componentStrategy)

variable (state) in
def Live (reference : String) : Prop :=
  ∃ v, state.Registered v ∧ v.rendered = reference ∧ v.stage = .production

/-- Every package names one registered version, which it stands for alone. -/
structure Packed (state : LifecycleState) : Prop where
  packages : ∀ name version package,
    state.deployments.package? name version = some package → ∃ ref : VersionRef,
      ref.name = name ∧ (state.strategies.version? ref.name ref.version).isSome ∧
      package.components.get? componentStrategy = some ref.render ∧
      state.releases.get? ref.render = some version
  releases : ∀ reference version, state.releases.get? reference = some version →
    ∃ ref : VersionRef, ref.render = reference ∧
      (state.strategies.version? ref.name ref.version).isSome ∧
      ∃ package, state.deployments.package? ref.name version = some package ∧
        package.components.get? componentStrategy = some reference

/-- The registries are kept, and exactly what runs somewhere is in production. -/
structure Kept (state : LifecycleState) : Prop where
  strategies : state.strategies.Kept
  deployments : state.deployments.Kept
  packed : state.Packed
  live : ∀ reference, state.Live reference ↔ Slots.Held state.holds reference

theorem kept_empty : Kept {} where
  strategies := StrategyVersionRegistry.kept_empty
  deployments := DeploymentManager.kept_empty
  packed := by
    refine ⟨?_, ?_⟩
    · intro name version package h
      rw [DeploymentManager.package?] at h
      split_ifs at h
      cases h
    · intro reference version h
      cases h
  live := by
    intro reference
    constructor
    · rintro ⟨v, hv, -⟩
      cases hv
    · rintro ⟨environment, h⟩
      cases h

theorem registered_of_version? (hkept : state.strategies.Kept) {name : String} {version : ℤ}
    (h : state.strategies.version? name version = some v) :
    v.name = name ∧ v.version = version ∧ state.Registered v := by
  have hname := (hkept.filed _ _ _ h).1
  have hversion := StrategyVersionRegistry.version_of_version? h
  refine ⟨hname, hversion, ?_⟩
  rw [Registered, hname, hversion]
  exact h

theorem rendered_eq {v : StrategyVersion} {ref : VersionRef} (hname : v.name = ref.name)
    (hversion : v.version = ref.version) : v.rendered = ref.render := by
  change renderRef v.name v.version = renderRef ref.name ref.version
  rw [hname, hversion]

theorem eq_of_rendered {v w : StrategyVersion} (hv : state.Registered v) (hw : state.Registered w)
    (h : v.rendered = w.rendered) : v = w := by
  obtain ⟨hname, hversion⟩ := render_injective h
  rw [Registered] at hv hw
  have hnames : v.name = w.name := hname
  have hversions : v.version = w.version := hversion
  rw [hnames, hversions, hw] at hv
  exact (Option.some.inj hv).symm

theorem Live.iff_of_registered (hv : state.Registered v) :
    state.Live v.rendered ↔ v.stage = .production := by
  constructor
  · rintro ⟨w, hw, hrendered, hstage⟩
    rw [← eq_of_rendered hw hv hrendered]
    exact hstage
  · intro hstage
    exact ⟨v, hv, rfl, hstage⟩

theorem Kept.versionNamed (hkept : state.Kept) {name : String} {version : ℤ}
    (h : state.deployments.package? name version = some package) :
    ∃ v, state.versionNamed package = .ok (some v) ∧ state.Registered v ∧ v.name = name ∧
      package.components.get? componentStrategy = some v.rendered := by
  obtain ⟨ref, hname, hsome, hcomponent, -⟩ := hkept.packed.packages _ _ _ h
  obtain ⟨v, hv⟩ := Option.isSome_iff_exists.mp hsome
  obtain ⟨hvname, hvversion, hregistered⟩ := registered_of_version? hkept.strategies hv
  have hrendered := rendered_eq hvname hvversion
  refine ⟨v, ?_, hregistered, hvname.trans hname, hcomponent.trans (by rw [hrendered])⟩
  rw [LifecycleState.versionNamed, hcomponent]
  change (parseRef ref.render >>= _) = _
  rw [parseRef_render]
  change (state.strategies.getStrategyVersion ref.name ref.version >>= _) = _
  rw [StrategyVersionRegistry.getStrategyVersion_ok.mpr hv]
  rfl

/-- **What runs in an environment** is a registered version, where anything does. -/
theorem Kept.activeStrategyVersion (hkept : state.Kept) (environment : String) :
    (state.activeStrategyVersion environment = .ok none ∧
        state.deployments.active? environment = none) ∨
      ∃ v package, state.activeStrategyVersion environment = .ok (some v) ∧
        state.Registered v ∧ state.holds environment = some v.rendered ∧
        state.deployments.active? environment = some package ∧
        package.components.get? componentStrategy = some v.rendered := by
  rw [LifecycleState.activeStrategyVersion, hkept.deployments.activeRelease]
  cases hactive : state.deployments.active? environment with
  | none => exact Or.inl ⟨rfl, rfl⟩
  | some package =>
    right
    obtain ⟨record, -, -, hpackage⟩ := hkept.deployments.active?_eq_some hactive
    obtain ⟨v, hv, hregistered, -, hcomponent⟩ := hkept.versionNamed hpackage
    refine ⟨v, package, hv, hregistered, ?_, rfl, hcomponent⟩
    rw [holds, hactive]
    exact hcomponent

/-- **The environments running a version** are those that hold its reference. -/
theorem environmentsRunning_eq (hkept : state.deployments.Kept) (ref : VersionRef) :
    ∃ running, state.environmentsRunning ref.name ref.version = .ok running ∧
      (running ≠ [] ↔ Slots.Held state.holds ref.render) := by
  have hfold : ∀ (environments running : List String),
      environments.foldlM (fun running environment => do
        let release ← state.deployments.activeRelease environment
        if release.bind (·.components.get? componentStrategy) = some ref.render then
          return running ++ [environment]
        else return running) running =
      (.ok (running ++ environments.filter fun e => state.holds e = some ref.render) :
        Except LifecycleRefusal (List String)) := by
    intro environments
    induction environments with
    | nil => intro running; simp [pure, Except.pure]
    | cons e environments ih =>
      intro running
      rw [List.foldlM_cons, hkept.activeRelease]
      by_cases he : state.holds e = some ref.render
      · have hbind : (state.deployments.active? e).bind (·.components.get? componentStrategy) =
            some ref.render := he
        simp only [bind, Except.bind, hbind, if_true, pure, Except.pure]
        exact (ih _).trans (by simp [he])
      · have hbind : ¬ (state.deployments.active? e).bind
            (·.components.get? componentStrategy) = some ref.render := he
        simp only [bind, Except.bind, hbind, if_false, pure, Except.pure]
        exact (ih _).trans (by simp [he])
  refine ⟨state.deployments.deployedEnvironments.filter fun e => state.holds e = some ref.render,
    ?_, ?_⟩
  · rw [environmentsRunning, StrategyVersionRef.of, VersionRef.of_self]
    exact hfold _ []
  · rw [ne_eq, List.filter_eq_nil_iff]
    push Not
    constructor
    · rintro ⟨e, -, he⟩
      exact ⟨e, of_decide_eq_true he⟩
    · rintro ⟨e, he⟩
      refine ⟨e, ?_, decide_eq_true he⟩
      refine DeploymentManager.mem_deployedEnvironments fun hnil => ?_
      rw [holds, hkept.active?_eq_none.mpr hnil] at he
      cases he

end LifecycleState

end AlphaLab
