/-
  What is in production is what the ledger says runs.

  Deploying and rolling back put a version in an environment: it moves to production, and
  the version displaced is archived unless it runs elsewhere (`Settles.kept`).  Every call
  keeps the registries and the ledger in agreement (`LifecycleState.call_kept`), so they
  agree in every state reached from the empty one.
-/
import AlphaLab.Lifecycle.Ledgers

namespace AlphaLab

open Fallible

namespace LifecycleState

variable {p : LifecyclePlatform} {state : LifecycleState} {v : StrategyVersion}

/-! ## What the parts of a call keep -/

variable {state' : LifecycleState}

theorem Packed.mono (h : state.Packed) (hdeployments : state'.deployments = state.deployments)
    (hreleases : state'.releases = state.releases)
    (hversions : ∀ name version, (state.strategies.version? name version).isSome →
      (state'.strategies.version? name version).isSome) : state'.Packed := by
  refine ⟨?_, ?_⟩
  · intro name version package hpackage
    rw [hdeployments] at hpackage
    obtain ⟨ref, hname, hsome, hcomponent, hrelease⟩ := h.packages _ _ _ hpackage
    exact ⟨ref, hname, hversions _ _ hsome, hcomponent, hreleases ▸ hrelease⟩
  · intro reference version hrelease
    rw [hreleases] at hrelease
    obtain ⟨ref, hrender, hsome, package, hpackage, hcomponent⟩ := h.releases _ _ hrelease
    exact ⟨ref, hrender, hversions _ _ hsome, package, hdeployments ▸ hpackage, hcomponent⟩

theorem Packed.of_packages {manager : DeploymentManager} (h : state.Packed)
    (hpackages : manager.package? = state.deployments.package?) :
    Packed { state with deployments := manager } := by
  refine ⟨?_, ?_⟩
  · intro name version package hpackage
    exact h.packages name version package (hpackages ▸ hpackage)
  · intro reference version hrelease
    obtain ⟨ref, hrender, hsome, package, hpackage, hcomponent⟩ := h.releases _ _ hrelease
    exact ⟨ref, hrender, hsome, package, hpackages ▸ hpackage, hcomponent⟩

structure SameBooks (state state' : LifecycleState) : Prop where
  strategies : state'.strategies = state.strategies
  deployments : state'.deployments = state.deployments
  releases : state'.releases = state.releases

theorem Kept.of_same (hkept : state.Kept) (h : SameBooks state state') : state'.Kept := by
  have hregistered : ∀ v, state'.Registered v ↔ state.Registered v := by
    intro v
    rw [Registered, Registered, h.strategies]
  have hholds : state'.holds = state.holds := by
    funext e
    rw [holds, holds, h.deployments]
  refine ⟨h.strategies ▸ hkept.strategies, h.deployments ▸ hkept.deployments, ?_, ?_⟩
  · refine hkept.packed.mono h.deployments h.releases fun name version hsome => ?_
    rw [h.strategies]
    exact hsome
  · intro reference
    rw [hholds, ← hkept.live]
    simp only [Live, hregistered]

variable {name : String}

section
variable {toStage : ModelStage} {reason : String} {timestamp : ℚ}
  {evidenceId policyId : Option String} {actorId : String}

theorem isSome_recordStageChange {version : ℤ} (h : (state.strategies.version? name version).isSome)
    :
    ((state.recordStageChange v toStage reason timestamp evidenceId policyId
      actorId).strategies.version? name version).isSome := by
  rw [version?_recordStageChange]
  split_ifs
  · rfl
  · exact h

/-- **A stage change** is of its version alone. -/
theorem live_recordStageChange (reference : String) :
    (state.recordStageChange v toStage reason timestamp evidenceId policyId actorId).Live
        reference ↔
      if reference = v.rendered then toStage = .production else state.Live reference := by
  have hread : ∀ w : StrategyVersion,
      (state.recordStageChange v toStage reason timestamp evidenceId policyId
        actorId).Registered w ↔
      if w.name = v.name ∧ w.version = v.version then movedTo v toStage evidenceId policyId = w
      else state.Registered w := by
    intro w
    rw [Registered, version?_recordStageChange]
    split_ifs
    · exact Option.some_inj
    · rfl
  split_ifs with hmine
  · subst hmine
    constructor
    · rintro ⟨w, hw, hrendered, hstage⟩
      have hsame : w.name = v.name ∧ w.version = v.version := render_injective hrendered
      rw [hread, if_pos hsame] at hw
      rw [← hw] at hstage
      exact hstage
    · intro hstage
      refine ⟨movedTo v toStage evidenceId policyId, ?_, rfl, hstage⟩
      exact (hread _).mpr (by rw [if_pos ⟨rfl, rfl⟩])
  · have hother : ∀ w : StrategyVersion, w.rendered = reference →
        ((state.recordStageChange v toStage reason timestamp evidenceId policyId
          actorId).Registered w ↔ state.Registered w) := by
      rintro w rfl
      rw [hread, if_neg]
      rintro ⟨hname, hversion⟩
      exact hmine (rendered_eq hname hversion)
    constructor
    · rintro ⟨w, hw, hrendered, hstage⟩
      exact ⟨w, (hother w hrendered).mp hw, hrendered, hstage⟩
    · rintro ⟨w, hw, hrendered, hstage⟩
      exact ⟨w, (hother w hrendered).mpr hw, hrendered, hstage⟩

end

theorem releaseManifest_strategy (p : LifecyclePlatform) (v : StrategyVersion) :
    (releaseManifest p v).1.get? componentStrategy = some v.rendered := by
  have hmodel : componentStrategy ≠ componentModel := by decide
  have hrun : componentStrategy ≠ componentRun := by decide
  have hevidence : componentStrategy ≠ componentEvidence := by decide
  rw [releaseManifest]
  cases v.model <;> cases v.runId <;> cases v.evidenceId <;>
    simp [Dict.get?_set, hmodel, hrun, hevidence]

/-- **The package standing for a version** is registered, and names it. -/
theorem releaseFor_kept {timestamp : ℚ} {package : ReleasePackage} (hkept : state.Kept)
    (hv : state.Registered v) (h : state.releaseFor p v timestamp = .ok (state', package)) :
    state'.deployments.Kept ∧ state'.Packed ∧ state'.strategies = state.strategies ∧
      state'.deployments.active? = state.deployments.active? ∧
      state'.deployments.package? package.name package.version = some package ∧
      package.components.get? componentStrategy = some v.rendered := by
  rw [releaseFor] at h
  cases hrelease : state.releases.get? v.rendered with
  | some existing =>
    rw [hrelease] at h
    obtain ⟨found, hfound, h⟩ := bind_ok.mp h
    obtain ⟨rfl, rfl⟩ := Prod.ext_iff.mp (Except.ok.inj h)
    obtain ⟨ref, hrender, -, package, hpackage, hcomponent⟩ := hkept.packed.releases _ _ hrelease
    have hname : ref.name = v.name := (render_injective hrender).1
    rw [hname] at hpackage
    rw [DeploymentManager.getRelease_ok, hpackage] at hfound
    obtain rfl := Option.some.inj hfound
    obtain ⟨hpname, hpversion⟩ := hkept.deployments.packaged _ _ _ hpackage
    refine ⟨hkept.deployments, hkept.packed, rfl, rfl, ?_, hcomponent⟩
    simp only [hpname, hpversion]
    exact hpackage
  | none =>
    rw [hrelease] at h
    obtain ⟨⟨manager, built⟩, hregister, h⟩ := bind_ok.mp h
    obtain ⟨rfl, rfl⟩ := Prod.ext_iff.mp (Except.ok.inj h)
    obtain ⟨hdeployments, hactive, hname, hcomponents, hfresh, hread⟩ :=
      DeploymentManager.registerRelease_kept hkept.deployments hregister
    have hcomponent : built.components.get? componentStrategy = some v.rendered := by
      rw [hcomponents]
      exact releaseManifest_strategy p v
    have hsome : (state.strategies.version? v.name v.version).isSome := by
      rw [hv]
      rfl
    refine ⟨hdeployments, ⟨?_, ?_⟩, rfl, funext hactive, ?_, hcomponent⟩
    · intro line version other hother
      rw [hread] at hother
      split_ifs at hother with hnew
      · obtain rfl := Option.some.inj hother
        obtain ⟨rfl, rfl⟩ := hnew
        exact ⟨v.toVersionRef, rfl, hsome, hcomponent, Dict.get?_set_self _ _ _⟩
      · obtain ⟨ref, hline, hversion, hnamed, hpacked⟩ := hkept.packed.packages _ _ _ hother
        refine ⟨ref, hline, hversion, hnamed, ?_⟩
        have hne : ref.render ≠ v.rendered := by
          intro hsame
          rw [hsame, hrelease] at hpacked
          cases hpacked
        exact (Dict.get?_set_of_ne _ _ hne).trans hpacked
    · intro reference version hget
      have hget' : (state.releases.set v.rendered built.version).get? reference =
          some version := hget
      rw [Dict.get?_set] at hget'
      split_ifs at hget' with hmine
      · obtain rfl := Option.some.inj hget'
        refine ⟨v.toVersionRef, hmine.symm, hsome, built, ?_, hmine ▸ hcomponent⟩
        exact (hread _ _).trans (if_pos ⟨rfl, rfl⟩)
      · obtain ⟨ref, hrender, hversion, package, hpackage, hnamed⟩ :=
          hkept.packed.releases _ _ hget'
        refine ⟨ref, hrender, hversion, package, ?_, hnamed⟩
        refine (hread _ _).trans ((if_neg ?_).trans hpackage)
        rintro ⟨hline, rfl⟩
        rw [hline, hfresh] at hpackage
        cases hpackage
    · exact (hread _ _).trans (if_pos ⟨hname, rfl⟩)

/-- `moved` is `state` with the version put in an environment and marked as in production;
    the version displaced is not marked yet. -/
structure Entered (state moved : LifecycleState) (environment : String) (v : StrategyVersion) :
    Prop where
  strategies : moved.strategies.Kept
  deployments : moved.deployments.Kept
  packed : moved.Packed
  holds : moved.holds = Slots.put state.holds environment v.rendered
  live : ∀ reference, moved.Live reference ↔ reference = v.rendered ∨ state.Live reference
  others : ∀ w : StrategyVersion, w.rendered ≠ v.rendered →
    (moved.Registered w ↔ state.Registered w)

/-- A version put in an environment moves to production, unless it is there. -/
theorem entered_of_placed {placed : LifecycleState} {environment why actorId : String}
    {timestamp : ℚ} (hkept : state.Kept) (hv : state.Registered v)
    (hstrategies : placed.strategies = state.strategies) (hdeployments : placed.deployments.Kept)
    (hpacked : placed.Packed)
    (hholds : placed.holds = Slots.put state.holds environment v.rendered) :
    Entered state (if v.stage ≠ .production then
      placed.recordStageChange v .production why timestamp none none actorId else placed)
      environment v := by
  have hplaced : ∀ w, placed.Registered w ↔ state.Registered w := by
    intro w
    rw [Registered, Registered, hstrategies]
  have hlive : ∀ reference, placed.Live reference ↔ state.Live reference := by
    intro reference
    simp only [Live, hplaced]
  split_ifs with hstage
  · refine ⟨?_, hdeployments, ?_, hholds, ?_, ?_⟩
    · exact recordStageChange_kept (hstrategies ▸ hkept.strategies) ((hplaced v).mpr hv)
    · exact hpacked.mono rfl rfl fun _ _ => isSome_recordStageChange
    · intro reference
      rw [live_recordStageChange, hlive]
      split_ifs with hmine <;> simp [hmine]
    · intro w hw
      rw [← hplaced, Registered, Registered, version?_recordStageChange, if_neg]
      rintro ⟨hname, hversion⟩
      exact hw (rendered_eq hname hversion)
  · rw [not_not] at hstage
    refine ⟨hstrategies ▸ hkept.strategies, hdeployments, hpacked, hholds, ?_,
      fun w _ => hplaced w⟩
    intro reference
    rw [hlive]
    constructor
    · exact Or.inr
    · rintro (rfl | h)
      · exact (Live.iff_of_registered hv).mpr hstage
      · exact h

variable {environment : String}

theorem Entered.kept_of_empty {moved : LifecycleState} (hkept : state.Kept)
    (h : Entered state moved environment v) (hempty : state.holds environment = none) :
    moved.Kept := by
  refine ⟨h.strategies, h.deployments, h.packed, ?_⟩
  rw [h.holds]
  refine Slots.live_put hkept.live ((h.live _).mpr (Or.inl rfl)) ?_ ?_
  · intro reference _ hheld
    rw [hempty] at hheld
    cases hheld
  · intro reference hother _
    rw [h.live]
    simp [hother]

/-- **The version displaced** is archived, unless it runs elsewhere. -/
theorem Entered.retires_kept {moved settled : LifecycleState} {environment why : String}
    {timestamp : ℚ} {out : StrategyVersion} (hkept : state.Kept)
    (h : Entered state moved environment v) (hout : state.Registered out)
    (hheld : state.holds environment = some out.rendered) (hne : out.rendered ≠ v.rendered)
    (hretires : Retires moved (some out) why timestamp settled) :
    settled.Kept ∧ settled.deployments = moved.deployments := by
  have houtLive : out.stage = .production :=
    (Live.iff_of_registered hout).mp ((hkept.live _).mpr ⟨environment, hheld⟩)
  have houtMoved : moved.Registered out := (h.others out hne).mpr hout
  obtain ⟨running, hrunning, hstill⟩ :=
    @environmentsRunning_eq moved h.deployments out.toVersionRef
  rw [h.holds] at hstill
  cases hretires with
  | kept hidle =>
    obtain ⟨running', hrunning', hne'⟩ := hidle out rfl houtLive
    obtain rfl := ok_inj.mp (hrunning.symm.trans hrunning')
    refine ⟨⟨h.strategies, h.deployments, h.packed, ?_⟩, rfl⟩
    rw [h.holds]
    refine Slots.live_put hkept.live ((h.live _).mpr (Or.inl rfl)) ?_ ?_
    · intro reference _ hbefore
      rw [hheld] at hbefore
      obtain rfl := Option.some.inj hbefore
      refine iff_of_true ?_ (hstill.mp hne')
      exact (h.live _).mpr (Or.inr ((Live.iff_of_registered hout).mpr houtLive))
    · intro reference hother _
      rw [h.live]
      simp [hother]
  | idle out' hout' hstage hidle =>
    obtain rfl := Option.some.inj hout'
    obtain rfl := ok_inj.mp (hrunning.symm.trans hidle)
    have hnot : ¬ Slots.Held (Slots.put state.holds environment v.rendered) out.rendered :=
      fun hheld => hstill.mpr hheld rfl
    refine ⟨⟨recordStageChange_kept h.strategies houtMoved, h.deployments,
      h.packed.mono rfl rfl fun _ _ => isSome_recordStageChange, ?_⟩, rfl⟩
    change ∀ reference, _ ↔ Slots.Held moved.holds reference
    rw [h.holds]
    refine Slots.live_put hkept.live ?_ ?_ ?_
    · rw [live_recordStageChange, if_neg hne.symm]
      exact (h.live _).mpr (Or.inl rfl)
    · intro reference _ hbefore
      rw [hheld] at hbefore
      obtain rfl := Option.some.inj hbefore
      rw [live_recordStageChange, if_pos rfl]
      exact iff_of_false (by decide) hnot
    · intro reference hother hbefore
      have hthird : reference ≠ out.rendered := by
        rintro rfl
        exact hbefore hheld
      rw [live_recordStageChange, if_neg hthird, h.live]
      simp [hother]

/-- **A version put in an environment** that runs another leaves everything kept. -/
theorem Settles.kept {placed : LifecycleState} {outgoing : Option StrategyVersion} {timestamp : ℚ}
    (h : Settles placed v outgoing timestamp state') (hkept : state.Kept) (hv : state.Registered v)
    (hstrategies : placed.strategies = state.strategies) (hdeployments : placed.deployments.Kept)
    (hpacked : placed.Packed) (hholds : placed.holds = Slots.put state.holds environment v.rendered)
    (hactive : state.activeStrategyVersion environment = .ok outgoing)
    (hne : state.holds environment ≠ some v.rendered) :
    state'.Kept ∧ state'.holds environment = some v.rendered := by
  obtain ⟨why, whyOut, actorId, settled, models, hretires⟩ := h
  have hentered := @entered_of_placed _ _ _ _ why actorId timestamp hkept hv hstrategies
    hdeployments hpacked hholds
  generalize (if v.stage ≠ .production then
    placed.recordStageChange v .production why timestamp none none actorId else placed) = moved
    at hentered hretires
  have hsettled : settled.Kept ∧ settled.deployments = moved.deployments := by
    rcases hkept.activeStrategyVersion environment with
      ⟨hnone, hempty⟩ | ⟨out, package, hsome, hout, hheld, -, -⟩
    · obtain rfl := ok_inj.mp (hactive.symm.trans hnone)
      cases hretires with
      | kept _ =>
        refine ⟨hentered.kept_of_empty hkept ?_, rfl⟩
        rw [holds, hempty]
        rfl
      | idle out hout _ _ => cases hout
    · obtain rfl := ok_inj.mp (hactive.symm.trans hsome)
      have houtNe : out.rendered ≠ v.rendered := by
        intro hsame
        rw [hheld, hsame] at hne
        exact hne rfl
      exact hentered.retires_kept hkept hout hheld houtNe hretires
  refine ⟨hsettled.1.of_same ⟨rfl, rfl, rfl⟩, ?_⟩
  have hmoved : moved.holds environment = some v.rendered := by
    rw [hentered.holds, Slots.put_self]
  rw [holds, show ({ settled with models := models } : LifecycleState).deployments =
    moved.deployments from hsettled.2]
  exact hmoved

/-! ## Calls -/

theorem eq_of_ref {v w : StrategyVersion} (h : v.ref = w.ref) : v.rendered = w.rendered := by
  rw [StrategyVersion.rendered, h]

theorem Kept.active_of_holds (hkept : state.Kept) {environment reference : String}
    (h : state.holds environment = some reference) :
    ∃ w, state.activeStrategyVersion environment = .ok (some w) ∧ w.rendered = reference := by
  rcases hkept.activeStrategyVersion environment with
    ⟨-, hempty⟩ | ⟨w, -, hw, -, hheld, -, -⟩
  · rw [holds, hempty] at h
    cases h
  · rw [h] at hheld
    exact ⟨w, hw, (Option.some.inj hheld).symm⟩

theorem Deploys.kept {version : ℤ} {timestamp : ℚ} (hkept : state.Kept)
    (h : Deploys p state name version environment timestamp state') : state'.Kept := by
  obtain ⟨strategy, incumbent, packed, package, manager, actorId, hget, hincumbent, hdiffers,
    hrelease, hdeploy, hsettles⟩ := h
  obtain ⟨-, -, hv⟩ := registered_of_version? hkept.strategies
    (StrategyVersionRegistry.getStrategyVersion_ok.mp hget)
  obtain ⟨hpackedDep, hpacked, hstrategies, hactive, hpackage, hcomponent⟩ :=
    releaseFor_kept hkept hv hrelease
  obtain ⟨-, release, active, hfound, hread, hother, hrecord⟩ :=
    DeploymentManager.deploy_ok hdeploy
  rw [hpackage] at hfound
  obtain rfl := Option.some.inj hfound
  have hlast : ∀ record ∈ (packed.deployments.history environment).getLast?,
      record.release ≠ (package.name, package.version) := by
    intro record hmem hsame
    obtain ⟨hname, hversion⟩ := Prod.ext_iff.mp hsame
    simp only [DeploymentRecord.release] at hname hversion
    refine hother ⟨package, ?_, rfl, rfl⟩
    rw [DeploymentManager.activeRelease_eq hread, DeploymentManager.active?,
      Option.mem_def.mp hmem, Option.bind_some, hname, hversion]
    exact hpackage
  obtain ⟨hmanager, hmanagerActive, hmanagerPackages⟩ :=
    DeploymentManager.recordDeployment_kept hpackedDep hrecord hpackage hlast
  have hne : state.holds environment ≠ some strategy.rendered := by
    intro hheld
    obtain ⟨w, hw, hrendered⟩ := hkept.active_of_holds hheld
    rw [hincumbent] at hw
    obtain rfl := Except.ok.inj hw
    have hsame := render_injective hrendered
    refine hdiffers (congrArg some ?_)
    have hboth : w.ref.toVersionRef = strategy.ref.toVersionRef := VersionRef.ext_of hsame.1 hsame.2
    exact congrArg StrategyVersionRef.mk hboth
  refine (hsettles.kept hkept hv hstrategies hmanager ?_ ?_ hincumbent hne).1
  · exact hpacked.of_packages hmanagerPackages
  · funext e
    rw [holds, hmanagerActive]
    by_cases he : e = environment
    · subst he
      rw [Slots.put_self, Slots.put_self]
      exact hcomponent
    · rw [Slots.put_of_ne _ _ he, Slots.put_of_ne _ _ he, hactive]
      rfl

/-- **Rolling an environment back** changes what runs there. -/
theorem RollsBack.kept {timestamp : ℚ} (hkept : state.Kept)
    (h : RollsBack state environment timestamp state') :
    state'.Kept ∧ ∃ v w, state.activeStrategyVersion environment = .ok (some v) ∧
      state'.activeStrategyVersion environment = .ok (some w) ∧ v.ref ≠ w.ref := by
  obtain ⟨target, package, v, outgoing, manager, actorId, htarget, houtgoing, hget, hnamed,
    hrollback, hsettles⟩ := h
  have hpackage := DeploymentManager.getRelease_ok.mp hget
  obtain ⟨w, hw, hregistered, -, hcomponent⟩ := hkept.versionNamed hpackage
  obtain rfl := Option.some.inj (ok_inj.mp (hnamed.symm.trans hw))
  -- the release taken down is another than the one restored
  obtain ⟨target', release, htarget', hrelease, hrecord⟩ := DeploymentManager.rollback_ok hrollback
  obtain rfl := Option.some.inj (htarget.symm.trans htarget')
  rw [hpackage] at hrelease
  obtain rfl := Option.some.inj hrelease
  obtain ⟨hname, hversion⟩ := hkept.deployments.packaged _ _ _ hpackage
  obtain ⟨earlier, prior, last, hhistory, hprior⟩ :=
    DeploymentManager.previousRelease_eq_some.mp htarget
  have hchain := hkept.deployments.unrepeated environment
  rw [hhistory, List.map_append] at hchain
  have hdiffer : prior.release ≠ last.release := Slots.ne_of_isChain hchain
  have hlast : ∀ record ∈ (state.deployments.history environment).getLast?,
      record.release ≠ (package.name, package.version) := by
    intro record hmem
    rw [hhistory] at hmem
    have hmem' : last = record := by simpa using hmem
    rw [← hmem', hname, hversion]
    exact fun hsame => hdiffer (hprior.trans hsame.symm)
  obtain ⟨hmanager, hmanagerActive, hmanagerPackages⟩ :=
    DeploymentManager.recordDeployment_kept hkept.deployments hrecord
      (by rw [hname, hversion]; exact hpackage) hlast
  -- so the version taken down is another than the one restored
  have hne : state.holds environment ≠ some v.rendered := by
    intro hheld
    obtain ⟨active, hactive, hactiveComponent⟩ := Option.bind_eq_some_iff.mp hheld
    obtain ⟨record, hrecordLast, hrecordRelease, hactivePackage⟩ :=
      hkept.deployments.active?_eq_some hactive
    obtain ⟨r, hrname, -, hrcomponent, hrversion⟩ := hkept.packed.packages _ _ _ hactivePackage
    obtain ⟨q, hqname, -, hqcomponent, hqversion⟩ := hkept.packed.packages _ _ _ hpackage
    rw [hactiveComponent] at hrcomponent
    rw [hcomponent] at hqcomponent
    have hr := Option.some.inj hrcomponent
    have hq := Option.some.inj hqcomponent
    have hrender : r.render = q.render := hr.symm.trans hq
    rw [hrender, hqversion] at hrversion
    have hnames : target.1 = active.name := by
      rw [← hqname, ← hrname, (render_injective hrender).1]
    refine hlast record hrecordLast ?_
    rw [hrecordRelease, hname, hversion, hnames, Option.some.inj hrversion]
  have hinstalled := hsettles.kept hkept hregistered rfl hmanager
    (hkept.packed.of_packages hmanagerPackages) ?_ houtgoing hne
  · refine ⟨hinstalled.1, ?_⟩
    obtain ⟨w, hw, hwrendered⟩ := hinstalled.1.active_of_holds hinstalled.2
    rcases hkept.activeStrategyVersion environment with
      ⟨-, hempty⟩ | ⟨out, -, hout, -, hheld, -, -⟩
    · rw [hkept.deployments.active?_eq_none, hhistory] at hempty
      exact absurd hempty (by simp)
    · refine ⟨out, w, hout, hw, fun hsame => hne ?_⟩
      rw [hheld, eq_of_ref hsame, hwrendered]
  · funext e
    rw [holds, hmanagerActive]
    by_cases he : e = environment
    · subst he
      rw [Slots.put_self, Slots.put_self]
      exact hcomponent
    · rw [Slots.put_of_ne _ _ he, Slots.put_of_ne _ _ he]
      rfl

/-- **Registering a strategy version**: it starts out of production. -/
theorem registerStrategy_kept {definition : StrategyDefinition} {timestamp : ℚ}
    {model : Option ModelRef} {runId : Option String} {tags : Dict String String}
    {registry : StrategyVersionRegistry} (hkept : state.Kept)
    (hregister : state.strategies.registerStrategyVersion name definition timestamp model runId tags
      = .ok (registry, v)) : Kept { state with strategies := registry } := by
  obtain ⟨hregistry, hreplace, hstage, hfresh⟩ :=
    StrategyVersionRegistry.registerStrategyVersion_kept hkept.strategies hregister
  have hread : ∀ n k, registry.version? n k =
      if n = v.name ∧ k = v.version then some v else state.strategies.version? n k := by
    rw [hreplace]
    exact StrategyVersionRegistry.version?_replace v
  refine ⟨hregistry, hkept.deployments, hkept.packed.mono rfl rfl ?_, ?_⟩
  · intro n k hsome
    change (registry.version? n k).isSome
    rw [hread]
    split_ifs
    · rfl
    · exact hsome
  · intro reference
    change _ ↔ Slots.Held state.holds reference
    rw [← hkept.live]
    constructor
    · rintro ⟨w, hw, hrendered, hlive⟩
      have hw' : registry.version? w.name w.version = some w := hw
      rw [hread] at hw'
      split_ifs at hw' with hnew
      · rw [← Option.some.inj hw', hstage] at hlive
        cases hlive
      · exact ⟨w, hw', hrendered, hlive⟩
    · rintro ⟨w, hw, hrendered, hlive⟩
      refine ⟨w, (hread _ _).trans ((if_neg ?_).trans hw), hrendered, hlive⟩
      rintro ⟨hname, hversion⟩
      rw [Registered, hname, hversion, hfresh] at hw
      cases hw

/-- A stage change out of production and to another stage keeps everything. -/
theorem Kept.recordStageChange {toStage : ModelStage} {reason actorId : String} {timestamp : ℚ}
    {evidenceId policyId : Option String} (hkept : state.Kept) (hv : state.Registered v)
    (hfrom : v.stage ≠ .production) (hto : toStage ≠ .production) :
    (state.recordStageChange v toStage reason timestamp evidenceId policyId actorId).Kept := by
  refine ⟨recordStageChange_kept hkept.strategies hv, hkept.deployments,
    hkept.packed.mono rfl rfl fun _ _ => isSome_recordStageChange, ?_⟩
  intro reference
  change _ ↔ Slots.Held state.holds reference
  rw [live_recordStageChange, ← hkept.live]
  split_ifs with hmine
  · rw [hmine, Live.iff_of_registered hv]
    exact iff_of_false hto hfrom
  · rfl

/-- **One call** keeps the registries and the ledger in agreement. -/
theorem call_kept {c : LifecycleCall} (hkept : state.Kept) (h : state.call p c = .ok state') :
    state'.Kept := by
  cases call_moves h with
  | registerModelVersion | recordEvidence | approve | between =>
    exact hkept.of_same ⟨rfl, rfl, rfl⟩
  | registerStrategy registry v hregister => exact registerStrategy_kept hkept hregister
  | promote v reason actorId hget hlegal =>
    obtain ⟨-, -, hv⟩ := registered_of_version? hkept.strategies
      (StrategyVersionRegistry.getStrategyVersion_ok.mp hget)
    exact hkept.recordStageChange hv hlegal (by decide)
  | retire v actorId hget hidle =>
    obtain ⟨hname, hversion, hv⟩ := registered_of_version? hkept.strategies
      (StrategyVersionRegistry.getStrategyVersion_ok.mp hget)
    refine hkept.recordStageChange hv ?_ (by decide)
    intro hstage
    obtain ⟨running, hrunning, hheld⟩ :=
      @environmentsRunning_eq state hkept.deployments v.toVersionRef
    rw [hname, hversion, hidle] at hrunning
    obtain rfl := ok_inj.mp hrunning
    exact hheld.mpr ((hkept.live _).mp ((Live.iff_of_registered hv).mpr hstage)) rfl
  | deploy h => exact h.kept hkept
  | rollback h => exact (h.kept hkept).1

end LifecycleState

abbrev LifecycleReached (p : LifecyclePlatform) (state : LifecycleState) : Prop :=
  Runs (LifecycleState.call p) (fun _ _ => True) {} state

theorem LifecycleReached.kept {p : LifecyclePlatform} {state : LifecycleState}
    (h : LifecycleReached p state) : state.Kept :=
  h.invariant LifecycleState.Kept LifecycleState.kept_empty fun _ _ _ hkept _ hcall =>
    LifecycleState.call_kept hkept hcall

/-- **A strategy version is in production exactly while some environment runs it**: its
    promotion log replays to its stage, the ledger names registered releases of one strategy
    version each, and rolling back always changes what runs. -/
theorem production_iff_running (p : LifecyclePlatform) {state : LifecycleState}
    (h : LifecycleReached p state) :
    (∀ v : StrategyVersion, state.strategies.getStrategyVersion v.name v.version = .ok v →
      (∃ running, state.environmentsRunning v.name v.version = .ok running ∧
        (v.stage = .production ↔ running ≠ [])) ∧
      Slots.Trail .none (state.strategies.moves v.name v.version) v.stage) ∧
    (∀ record ∈ state.deployments.deployments, ∃ package,
      state.deployments.getRelease record.releaseName record.version = .ok package ∧
        ∃! v : StrategyVersion,
          state.strategies.getStrategyVersion v.name v.version = .ok v ∧
            package.components.get? componentStrategy = some v.rendered) ∧
    (∀ environment, ((state.deployments.deployments.filter
      (·.environment = environment)).map (·.release)).IsChain (· ≠ ·)) ∧
    ∀ governance environment timestamp deployedBy notes state' ref,
      state.rollbackEnvironment governance environment timestamp deployedBy notes =
        .ok (state', ref) → ∃ v w, state.activeStrategyVersion environment = .ok (some v) ∧
          state'.activeStrategyVersion environment = .ok (some w) ∧ v.ref ≠ w.ref := by
  have hkept := h.kept
  refine ⟨?_, ?_, ?_, ?_⟩
  · intro v hget
    have hv : state.Registered v := StrategyVersionRegistry.getStrategyVersion_ok.mp hget
    obtain ⟨running, hrunning, hheld⟩ :=
      @LifecycleState.environmentsRunning_eq state hkept.deployments v.toVersionRef
    refine ⟨⟨running, hrunning, ?_⟩, hkept.strategies.replayed _ _ _ hv⟩
    rw [hheld, ← LifecycleState.Live.iff_of_registered hv]
    exact hkept.live v.rendered
  · intro record hrecord
    obtain ⟨package, hpackage⟩ :=
      Option.isSome_iff_exists.mp (hkept.deployments.named record hrecord)
    obtain ⟨v, -, hv, -, hcomponent⟩ := hkept.versionNamed hpackage
    refine ⟨package, DeploymentManager.getRelease_ok.mpr hpackage, v,
      ⟨StrategyVersionRegistry.getStrategyVersion_ok.mpr hv, hcomponent⟩, ?_⟩
    rintro w ⟨hw, hwcomponent⟩
    rw [hcomponent] at hwcomponent
    exact LifecycleState.eq_of_rendered (StrategyVersionRegistry.getStrategyVersion_ok.mp hw) hv
      (Option.some.inj hwcomponent).symm
  · intro environment
    rw [← hkept.deployments.indexed]
    exact hkept.deployments.unrepeated environment
  · intro governance environment timestamp deployedBy notes state' ref hrollback
    exact ((LifecycleState.rollbackEnvironment_ok hrollback).kept hkept).2

/-! Two versions of one strategy follow each other in an environment, and the first is
    rolled back to. -/

def plainPlatform : LifecyclePlatform := ⟨id, fun _ => "0", fun _ => "1.0"⟩

def operator : Governance := ⟨fun _ _ => true, "operator", [], by decide +kernel⟩

def measured : Dict String Measure := Dict.empty.set "sharpe_ratio" (.finite 1)

def maEvidence (second : Bool) : ValidationEvidence where
  evidenceId := evidenceIdFor plainPlatform .external (if second then "ma@2" else "ma@1") "prices"
    none measured
  method := .external
  subject := if second then "ma@2" else "ma@1"
  datasetId := "prices"
  metrics := measured
  seed := none
  producedAt := 0
  sourceId := ""
  identified := by revert second; decide +kernel
  about := by revert second; decide +kernel

def sharpePolicy : ValidationPolicy where
  policyId := "sharpe"
  thresholds := [⟨"sharpe_ratio", some (.finite (1 / 2)), none, by decide +kernel, by decide⟩]
  requiredMethod := none
  identified := by decide +kernel
  checks := by decide

def maCalls : List LifecycleCall :=
  [.registerStrategy "ma" {} 1 none none Dict.empty,
    .registerStrategy "ma" {} 1 none none Dict.empty,
    .recordEvidence (maEvidence false), .recordEvidence (maEvidence true),
    .promote operator "ma" 1 sharpePolicy (maEvidence false).evidenceId 2,
    .promote operator "ma" 2 sharpePolicy (maEvidence true).evidenceId 2,
    .deploy operator "ma" 1 "paper" 3 "" "", .deploy operator "ma" 2 "paper" 4 "" "",
    .rollback operator "paper" 5 "" ""]

theorem production_iff_running_rolled_back :
    ∃ state, LifecycleReached plainPlatform state ∧
      (∃ v, state.strategies.getStrategyVersion "ma" 1 = .ok v ∧ v.stage = .production) ∧
      ∀ v : StrategyVersion, state.strategies.getStrategyVersion v.name v.version = .ok v →
        ∃ running, state.environmentsRunning v.name v.version = .ok running ∧
          (v.stage = .production ↔ running ≠ []) := by
  have hrun := ok_getD (x := maCalls.foldlM (LifecycleState.call plainPlatform) {})
    (by decide +kernel) {}
  have hreached : LifecycleReached plainPlatform _ := Runs.of_foldlM hrun fun _ _ _ => trivial
  refine ⟨_, hreached, ?_, fun v hv => ((production_iff_running plainPlatform hreached).1 v hv).1⟩
  exact exists_ok_of (fun v : StrategyVersion => v.stage = .production) (by decide +kernel)

end AlphaLab
