/-
  The governance log (`lifecycle/governance.py`, `governance_log` of `lifecycle/views.py`).

  The log is sorted out of the promotions, the deployments and the approvals, one after another.
  A run keeps its `chronicle`: the acts in the order in which they were recorded.  The two agree
  iff nothing was deployed and nothing changed its stage at the instant of an approval given
  before (`governanceLog_eq_iff`): a deployment records its stage changes after itself, and the
  log reads them before it.
-/
import AlphaLab.Lib.Stable
import AlphaLab.Lifecycle.LedgerRuns

namespace AlphaLab

open Fallible

/-! ## The log -/

/-- `GovernedAct`: one governed change, flattened for reading. -/
structure GovernedAct where
  action : String
  subject : String
  actorId : String
  timestamp : ℚ
  detail : String
deriving DecidableEq

def StrategyPromotionRecord.act (promotion : StrategyPromotionRecord) : GovernedAct where
  action := "promotion"
  subject := renderRef promotion.name promotion.version
  actorId := promotion.actorId
  timestamp := promotion.timestamp
  detail := promotion.fromStage.name ++ " -> " ++ promotion.toStage.name ++ ": " ++
    promotion.reason

def DeploymentRecord.act (deployment : DeploymentRecord) : GovernedAct where
  action := if deployment.isRollback then "rollback" else "deployment"
  subject := renderRef deployment.releaseName deployment.version
  actorId := deployment.actorId
  timestamp := deployment.timestamp
  detail := "environment '" ++ deployment.environment ++ "'"

def ApprovalRecord.subject (approval : ApprovalRecord) : String :=
  renderRef approval.name approval.version ++ " -> " ++ approval.environment

def ApprovalRecord.act (approval : ApprovalRecord) : GovernedAct where
  action := "approval"
  subject := approval.subject
  actorId := approval.approverId
  timestamp := approval.timestamp
  detail := approval.note

/-- The acts as `governance_trail` collects them. -/
def collectedActs (promotions : List StrategyPromotionRecord) (deployments : List DeploymentRecord)
    (approvals : List ApprovalRecord) : List GovernedAct :=
  promotions.map (·.act) ++ (deployments.map (·.act) ++ approvals.map (·.act))

def governanceTrail (promotions : List StrategyPromotionRecord)
    (deployments : List DeploymentRecord) (approvals : List ApprovalRecord) : List GovernedAct :=
  sortBy (·.timestamp) (collectedActs promotions deployments approvals)

def LifecycleState.acts (state : LifecycleState) : List GovernedAct :=
  collectedActs state.strategies.promotions state.deployments.deployments state.approvals

def LifecycleState.governanceLog (state : LifecycleState) : List GovernedAct :=
  governanceTrail state.strategies.promotions state.deployments.deployments state.approvals

/-! ## The order in which acts are recorded -/

/-- What a call recorded, in the order it did: a deployment is written to the ledger before the
stages it changes. -/
def recorded (before after : LifecycleState) : List GovernedAct :=
  (after.deployments.deployments.drop before.deployments.deployments.length).map (·.act) ++
    ((after.strategies.promotions.drop before.strategies.promotions.length).map (·.act) ++
      (after.approvals.drop before.approvals.length).map (·.act))

/-- A run, with every call and the state it was made in, and every act as it was recorded. -/
structure GovernedRun where
  state : LifecycleState := {}
  calls : List (LifecycleState × LifecycleCall) := []
  chronicle : List GovernedAct := []

def GovernedRun.call (p : LifecyclePlatform) (run : GovernedRun) (c : LifecycleCall) :
    Except LifecycleRefusal GovernedRun := do
  let state ← run.state.call p c
  return ⟨state, run.calls ++ [(run.state, c)], run.chronicle ++ recorded run.state state⟩

def LifecycleCall.instant? : LifecycleCall → Option ℚ
  | .promote _ _ _ _ _ timestamp | .approve _ _ _ _ timestamp _ | .retire _ _ _ timestamp _
  | .deploy _ _ _ _ timestamp _ _ | .rollback _ _ timestamp _ _ => some timestamp
  | _ => none

def GovernedRun.InTime (run : GovernedRun) (c : LifecycleCall) : Prop :=
  ∀ instant ∈ c.instant?, ∀ act ∈ run.chronicle, act.timestamp ≤ instant

/-- The call deploys nothing, and changes no stage at the instant of an approval. -/
def LifecycleState.InTurn (state : LifecycleState) : LifecycleCall → Prop
  | .promote _ _ _ _ _ timestamp | .retire _ _ _ timestamp _ =>
    ∀ approval ∈ state.approvals, approval.timestamp ≠ timestamp
  | .deploy .. | .rollback .. => False
  | _ => True

/-- Where `governance_trail` collects an act. -/
def GovernedAct.rank (act : GovernedAct) : ℕ :=
  if act.action = "promotion" then 0 else if act.action = "approval" then 2 else 1

@[simp] theorem StrategyPromotionRecord.rank_act (promotion : StrategyPromotionRecord) :
    promotion.act.rank = 0 := rfl

@[simp] theorem DeploymentRecord.rank_act (deployment : DeploymentRecord) :
    deployment.act.rank = 1 := by
  rw [GovernedAct.rank, act]
  cases deployment.isRollback <;> rfl

@[simp] theorem ApprovalRecord.rank_act (approval : ApprovalRecord) : approval.act.rank = 2 := rfl

theorem filter_rank {α : Type} {act : α → GovernedAct} {k : ℕ} (h : ∀ a, (act a).rank = k)
    (l : List α) (r : ℕ) : (l.map act).filter (·.rank = r) = if k = r then l.map act else [] := by
  induction l with
  | nil => simp
  | cons a l ih =>
    rw [List.map_cons, List.filter_cons, ih, h a]
    split_ifs <;> simp_all

theorem filter_collectedActs (promotions : List StrategyPromotionRecord)
    (deployments : List DeploymentRecord) (approvals : List ApprovalRecord) (r : ℕ) :
    (collectedActs promotions deployments approvals).filter (·.rank = r) =
      (if 0 = r then promotions.map (·.act) else []) ++
        ((if 1 = r then deployments.map (·.act) else []) ++
          if 2 = r then approvals.map (·.act) else []) := by
  rw [collectedActs, List.filter_append, List.filter_append,
    filter_rank StrategyPromotionRecord.rank_act, filter_rank DeploymentRecord.rank_act,
    filter_rank ApprovalRecord.rank_act]

/-! ## What a call records -/

structure Adds (state state' : LifecycleState) (instant : Option ℚ)
    (moves : List StrategyPromotionRecord) (placed : List DeploymentRecord)
    (granted : List ApprovalRecord) : Prop where
  promotions : state'.strategies.promotions = state.strategies.promotions ++ moves
  deployments : state'.deployments.deployments = state.deployments.deployments ++ placed
  approvals : state'.approvals = state.approvals ++ granted
  instants : ∀ act ∈ collectedActs moves placed granted, instant = some act.timestamp

section
variable {p : LifecyclePlatform} {state state' : LifecycleState} {c : LifecycleCall}
  {timestamp : ℚ} {instant : Option ℚ} {moves : List StrategyPromotionRecord}
  {placed : List DeploymentRecord} {granted : List ApprovalRecord}

theorem Adds.recorded_eq (h : Adds state state' instant moves placed granted) :
    recorded state state' =
      placed.map (·.act) ++ (moves.map (·.act) ++ granted.map (·.act)) := by
  rw [recorded, h.promotions, h.deployments, h.approvals, List.drop_left, List.drop_left,
    List.drop_left]

theorem Adds.filter_acts (h : Adds state state' instant moves placed granted) (r : ℕ) :
    state'.acts.filter (·.rank = r) =
      state.acts.filter (·.rank = r) ++ (recorded state state').filter (·.rank = r) := by
  rw [h.recorded_eq, LifecycleState.acts, LifecycleState.acts, filter_collectedActs,
    filter_collectedActs, h.promotions, h.deployments, h.approvals, List.filter_append,
    List.filter_append, filter_rank StrategyPromotionRecord.rank_act,
    filter_rank DeploymentRecord.rank_act, filter_rank ApprovalRecord.rank_act]
  obtain rfl | rfl | rfl | ⟨h0, h1, h2⟩ : r = 0 ∨ r = 1 ∨ r = 2 ∨ 0 ≠ r ∧ 1 ≠ r ∧ 2 ≠ r := by omega
  · simp
  · simp
  · simp
  · simp [h0, h1, h2]

theorem Adds.trans {later : LifecycleState} {moves' : List StrategyPromotionRecord}
    {placed' : List DeploymentRecord} {granted' : List ApprovalRecord}
    (h : Adds state state' instant moves placed granted)
    (h' : Adds state' later instant moves' placed' granted') :
    Adds state later instant (moves ++ moves') (placed ++ placed') (granted ++ granted') := by
  refine ⟨?_, ?_, ?_, ?_⟩
  · rw [h'.promotions, h.promotions, List.append_assoc]
  · rw [h'.deployments, h.deployments, List.append_assoc]
  · rw [h'.approvals, h.approvals, List.append_assoc]
  · intro act hact
    have hboth : act ∈ collectedActs moves placed granted ∨
        act ∈ collectedActs moves' placed' granted' := by
      simp only [collectedActs, List.map_append, List.mem_append] at hact ⊢
      tauto
    exact hboth.elim (h.instants act) (h'.instants act)

theorem adds_nothing (hpromotions : state'.strategies.promotions = state.strategies.promotions)
    (hdeployments : state'.deployments.deployments = state.deployments.deployments)
    (happrovals : state'.approvals = state.approvals) : Adds state state' instant [] [] [] :=
  ⟨by simp [hpromotions], by simp [hdeployments], by simp [happrovals], by simp [collectedActs]⟩

theorem adds_stage (v : StrategyVersion) (toStage : ModelStage) (reason : String)
    (evidenceId policyId : Option String) (actorId : String) :
    ∃ move, Adds state (state.recordStageChange v toStage reason timestamp evidenceId policyId
      actorId) (some timestamp) [move] [] [] := by
  refine ⟨_, rfl, (List.append_nil _).symm, (List.append_nil _).symm, ?_⟩
  intro act hact
  obtain rfl := List.mem_singleton.mp hact
  rfl

theorem adds_deployment {environment actorId : String} {release : ReleasePackage}
    {isRollback : Bool} {manager : DeploymentManager}
    (h : state.deployments.recordDeployment environment release isRollback timestamp actorId =
      .ok manager) :
    ∃ record, Adds state { state with deployments := manager } (some timestamp) [] [record] [] := by
  obtain ⟨incumbent, -, h⟩ := bind_ok.mp h
  obtain rfl := pure_ok.mp h
  refine ⟨_, (List.append_nil _).symm, rfl, (List.append_nil _).symm, ?_⟩
  intro act hact
  obtain rfl := List.mem_singleton.mp hact
  rfl

theorem adds_release {v : StrategyVersion} {package : ReleasePackage}
    (h : state.releaseFor p v timestamp = .ok (state', package)) :
    Adds state state' instant [] [] [] := by
  rw [LifecycleState.releaseFor] at h
  cases hrelease : state.releases.get? v.rendered with
  | some existing =>
    rw [hrelease] at h
    obtain ⟨found, -, h⟩ := bind_ok.mp h
    obtain ⟨rfl, -⟩ := Prod.ext_iff.mp (ok_inj.mp h)
    exact adds_nothing rfl rfl rfl
  | none =>
    rw [hrelease] at h
    obtain ⟨⟨manager, built⟩, hregister, h⟩ := bind_ok.mp h
    obtain ⟨rfl, -⟩ := Prod.ext_iff.mp (ok_inj.mp h)
    obtain ⟨rfl, -⟩ := DeploymentManager.registerRelease_ok hregister
    exact adds_nothing rfl rfl rfl

/-- A version placed in its environment records its move to production, unless it is there. -/
theorem Settles.adds {v : StrategyVersion} {outgoing : Option StrategyVersion}
    (h : LifecycleState.Settles state v outgoing timestamp state') :
    ∃ moves, Adds state state' (some timestamp) moves [] [] ∧
      (v.stage ≠ .production → moves ≠ []) := by
  obtain ⟨why, whyOut, actorId, settled, models, hretires⟩ := h
  have hretired : ∀ {staged : LifecycleState},
      LifecycleState.Retires staged outgoing whyOut timestamp settled →
      ∃ moves, Adds staged { settled with models := models } (some timestamp) moves [] [] := by
    intro staged hstaged
    cases hstaged with
    | kept _ => exact ⟨[], adds_nothing rfl rfl rfl⟩
    | idle out _ _ _ =>
      obtain ⟨move, hmove⟩ := @adds_stage staged timestamp out .archived whyOut none none ""
      exact ⟨[move], hmove.promotions, hmove.deployments, hmove.approvals, hmove.instants⟩
  split_ifs at hretires with hstage
  · obtain ⟨move, hmove⟩ := @adds_stage state timestamp v .production why none none actorId
    obtain ⟨moves, hmoves⟩ := hretired hretires
    exact ⟨move :: moves, hmove.trans hmoves, fun _ => List.cons_ne_nil _ _⟩
  · obtain ⟨moves, hmoves⟩ := hretired hretires
    exact ⟨moves, hmoves, fun h => absurd h hstage⟩

/-- Nothing is in production before the first deployment. -/
theorem stage_of_undeployed {v : StrategyVersion} (hkept : state.Kept)
    (hv : state.Registered v) (hnone : state.deployments.deployments = []) :
    v.stage ≠ .production := by
  intro hstage
  obtain ⟨environment, hheld⟩ :=
    (hkept.live v.rendered).mp ((LifecycleState.Live.iff_of_registered hv).mpr hstage)
  have hempty : state.deployments.active? environment = none := by
    rw [hkept.deployments.active?_eq_none, hkept.deployments.indexed, hnone]
    rfl
  rw [LifecycleState.holds, hempty] at hheld
  cases hheld

/-- **A deployment** writes one record, and the first of all a stage change too. -/
theorem Deploys.adds {name environment : String} {version : ℤ} (hkept : state.Kept)
    (h : LifecycleState.Deploys p state name version environment timestamp state') :
    ∃ moves record, Adds state state' (some timestamp) moves [record] [] ∧
      (state.deployments.deployments = [] → moves ≠ []) := by
  obtain ⟨v, incumbent, packed, package, manager, actorId, hget, -, -, hrelease, hdeploy,
    hsettles⟩ := h
  obtain ⟨-, -, hv⟩ := LifecycleState.registered_of_version? hkept.strategies
    (StrategyVersionRegistry.getStrategyVersion_ok.mp hget)
  obtain ⟨-, _, _, -, -, -, hrecord⟩ := DeploymentManager.deploy_ok hdeploy
  obtain ⟨record, hplaced⟩ := adds_deployment hrecord
  obtain ⟨moves, hsettled, hmoves⟩ := Settles.adds hsettles
  exact ⟨moves, record, ((adds_release hrelease).trans hplaced).trans hsettled,
    fun hnone => hmoves (stage_of_undeployed hkept hv hnone)⟩

/-- **A rollback** writes one record, after others. -/
theorem RollsBack.adds {environment : String} (hkept : state.Kept)
    (h : LifecycleState.RollsBack state environment timestamp state') :
    ∃ moves record, Adds state state' (some timestamp) moves [record] [] ∧
      (state.deployments.deployments = [] → moves ≠ []) := by
  obtain ⟨target, package, v, outgoing, manager, actorId, htarget, -, -, -, hrollback,
    hsettles⟩ := h
  obtain ⟨_, _, -, -, hrecord⟩ := DeploymentManager.rollback_ok hrollback
  obtain ⟨record, hplaced⟩ := adds_deployment hrecord
  obtain ⟨moves, hsettled, -⟩ := Settles.adds hsettles
  refine ⟨moves, record, hplaced.trans hsettled, fun hnone => ?_⟩
  obtain ⟨earlier, prior, last, hhistory, -⟩ :=
    DeploymentManager.previousRelease_eq_some.mp htarget
  rw [hkept.deployments.indexed, hnone] at hhistory
  exact absurd hhistory.symm (by simp)

end

/-! ## Runs -/

structure GovernedRun.Told (run : GovernedRun) : Prop where
  kept : run.state.Kept
  same : ∀ r, run.state.acts.filter (·.rank = r) = run.chronicle.filter (·.rank = r)
  inTime : run.chronicle.Pairwise fun a b => a.timestamp ≤ b.timestamp
  turns : (run.chronicle.Pairwise fun a b => a.timestamp = b.timestamp → a.rank ≤ b.rank) ↔
    ∀ made ∈ run.calls, made.1.InTurn made.2
  undeployed : (∀ made ∈ run.calls, made.1.InTurn made.2) → run.state.deployments.deployments = []

section
variable {p : LifecyclePlatform} {run run' : GovernedRun} {c : LifecycleCall}

theorem GovernedRun.Told.perm (h : run.Told) : run.chronicle.Perm run.state.acts := by
  refine List.perm_iff_count.mpr fun act => ?_
  have hrank : ∀ l : List GovernedAct,
      l.count act = (l.filter fun a => a.rank = act.rank).count act := by
    intro l
    rw [List.count_filter]
    exact decide_eq_true rfl
  rw [hrank, ← h.same, ← hrank]

/-- The acts on record and those just recorded are in the order of their classes. -/
def InClasses (told new : List GovernedAct) : Prop :=
  (new.Pairwise fun a b => a.timestamp = b.timestamp → a.rank ≤ b.rank) ∧
    ∀ a ∈ told, ∀ b ∈ new, a.timestamp = b.timestamp → a.rank ≤ b.rank

theorem GovernedRun.Told.step {state' : LifecycleState} {moves : List StrategyPromotionRecord}
    {placed : List DeploymentRecord} {granted : List ApprovalRecord} (h : run.Told)
    (hkept : state'.Kept) (hadds : Adds run.state state' c.instant? moves placed granted)
    (htime : run.InTime c)
    (hturn : run.state.deployments.deployments = [] →
      (InClasses run.chronicle (recorded run.state state') ↔ run.state.InTurn c))
    (hplaced : run.state.InTurn c → placed = []) :
    Told ⟨state', run.calls ++ [(run.state, c)],
      run.chronicle ++ recorded run.state state'⟩ := by
  have hnew : ∀ act ∈ recorded run.state state', c.instant? = some act.timestamp := by
    intro act hact
    refine hadds.instants act ?_
    rw [hadds.recorded_eq] at hact
    simp only [collectedActs, List.mem_append] at hact ⊢
    tauto
  have hcalls : (∀ made ∈ run.calls ++ [(run.state, c)], made.1.InTurn made.2) ↔
      (∀ made ∈ run.calls, made.1.InTurn made.2) ∧ run.state.InTurn c := by
    simp only [List.forall_mem_append, List.forall_mem_singleton]
  refine ⟨hkept, ?_, ?_, ?_, ?_⟩
  · intro r
    rw [hadds.filter_acts, h.same, List.filter_append]
  · refine List.pairwise_append.mpr ⟨h.inTime, List.pairwise_of_forall_mem_list ?_, ?_⟩
    · intro a ha b hb
      exact (Option.some.inj ((hnew a ha).symm.trans (hnew b hb))).le
    · intro a ha b hb
      exact htime _ (hnew b hb) a ha
  · rw [hcalls, List.pairwise_append, h.turns]
    exact and_congr_right fun hturns => hturn (h.undeployed hturns)
  · rw [hcalls]
    rintro ⟨hturns, hnow⟩
    change state'.deployments.deployments = []
    rw [hadds.deployments, h.undeployed hturns, hplaced hnow]
    rfl

theorem GovernedAct.rank_le (act : GovernedAct) : act.rank ≤ 2 := by
  rw [rank]
  split_ifs <;> omega

/-- Before anything is deployed, a stage change reads in turn unless an approval of its instant
was given before. -/
theorem GovernedRun.Told.inClasses_move (h : run.Told)
    (hnone : run.state.deployments.deployments = []) (move : StrategyPromotionRecord) :
    InClasses run.chronicle [move.act] ↔
      ∀ approval ∈ run.state.approvals, approval.timestamp ≠ move.timestamp := by
  have hmem : ∀ act, act ∈ run.chronicle ↔ (∃ m ∈ run.state.strategies.promotions, m.act = act) ∨
      ∃ approval ∈ run.state.approvals, approval.act = act := by
    intro act
    rw [h.perm.mem_iff, LifecycleState.acts, hnone]
    simp [collectedActs]
  simp only [InClasses, List.pairwise_singleton, true_and, List.mem_singleton, forall_eq, hmem]
  constructor
  · intro hranks approval happroval hsame
    have hrank := hranks approval.act (Or.inr ⟨approval, happroval, rfl⟩) hsame
    simp at hrank
  · rintro hapart act (⟨m, -, rfl⟩ | ⟨approval, happroval, rfl⟩) hsame
    · simp
    · exact absurd hsame (hapart approval happroval)

/-- A deployment and the stage change it causes are of one instant, and read the other way. -/
theorem not_inClasses {state state' : LifecycleState} {instant : Option ℚ} {told : List GovernedAct}
    {moves : List StrategyPromotionRecord} {record : DeploymentRecord}
    (hadds : Adds state state' instant moves [record] []) (hmoves : moves ≠ []) :
    ¬ InClasses told (recorded state state') := by
  rintro ⟨hranks, -⟩
  obtain ⟨move, moves, rfl⟩ := List.exists_cons_of_ne_nil hmoves
  rw [hadds.recorded_eq] at hranks
  have hmove := hadds.instants move.act (by simp [collectedActs])
  have hrecord := hadds.instants record.act (by simp [collectedActs])
  have hrank := (List.pairwise_cons.mp hranks).1 move.act (by simp)
    (Option.some.inj (hrecord.symm.trans hmove))
  simp at hrank

theorem GovernedRun.Told.call (h : run.Told) (htime : run.InTime c)
    (hcall : run.call p c = .ok run') : run'.Told := by
  obtain ⟨state', haccepted, hrun⟩ := bind_ok.mp hcall
  obtain rfl := pure_ok.mp hrun
  have hkept := LifecycleState.call_kept h.kept haccepted
  have hnothing : ∀ {s : LifecycleState}, s.Kept → Adds run.state s c.instant? [] [] [] →
      run.state.InTurn c →
      Told ⟨s, run.calls ++ [(run.state, c)], run.chronicle ++ recorded run.state s⟩ := by
    intro s hs hadds hturn
    refine h.step hs hadds htime (fun _ => iff_of_true ?_ hturn) fun _ => rfl
    rw [hadds.recorded_eq]
    exact ⟨.nil, fun _ _ b hb => absurd hb List.not_mem_nil⟩
  have hmove : ∀ {s : LifecycleState} {move : StrategyPromotionRecord} {timestamp : ℚ},
      Adds run.state s (some timestamp) [move] [] [] →
      run.state.deployments.deployments = [] →
      (InClasses run.chronicle (recorded run.state s) ↔
        ∀ approval ∈ run.state.approvals, approval.timestamp ≠ timestamp) := by
    intro s move timestamp hadds hnone
    have hinstant := Option.some.inj (hadds.instants move.act (by simp [collectedActs]))
    rw [hadds.recorded_eq, hinstant]
    exact h.inClasses_move hnone move
  cases LifecycleState.call_moves haccepted with
  | registerModelVersion | recordEvidence | between =>
    exact hnothing hkept (adds_nothing rfl rfl rfl) trivial
  | registerStrategy registry v hregister =>
    obtain ⟨-, rfl, -⟩ :=
      StrategyVersionRegistry.registerStrategyVersion_kept h.kept.strategies hregister
    exact hnothing hkept (adds_nothing rfl rfl rfl) trivial
  | promote v reason actorId _ _ =>
    obtain ⟨move, hadds⟩ := adds_stage v .staging reason _ _ actorId
    exact h.step hkept hadds htime (hmove hadds) fun _ => rfl
  | @retire _ _ _ _ reason v actorId _ _ =>
    obtain ⟨move, hadds⟩ := adds_stage v .archived reason none none actorId
    exact h.step hkept hadds htime (hmove hadds) fun _ => rfl
  | approve record hat =>
    have hadds : Adds run.state { run.state with approvals := run.state.approvals ++ [record] }
        (some record.timestamp) [] [] [record] :=
      ⟨(List.append_nil _).symm, (List.append_nil _).symm, rfl, by simp [collectedActs,
        ApprovalRecord.act]⟩
    subst hat
    refine h.step hkept hadds htime (fun _ => iff_of_true ⟨?_, ?_⟩ trivial) fun _ => rfl
    · rw [hadds.recorded_eq]
      exact List.pairwise_singleton _ _
    · rw [hadds.recorded_eq]
      rintro a - b hb -
      obtain rfl := List.mem_singleton.mp hb
      exact a.rank_le
  | deploy hdeploys =>
    obtain ⟨moves, record, hadds, hmoves⟩ := Deploys.adds h.kept hdeploys
    exact h.step hkept hadds htime
      (fun hnone => iff_of_false (not_inClasses hadds (hmoves hnone)) id) False.elim
  | rollback hrollsBack =>
    obtain ⟨moves, record, hadds, hmoves⟩ := RollsBack.adds h.kept hrollsBack
    exact h.step hkept hadds htime
      (fun hnone => iff_of_false (not_inClasses hadds (hmoves hnone)) id) False.elim

end

/-- **The log has every act once, and reads in the order they were recorded** iff nothing was
deployed or rolled back, and no stage changed at the instant of an approval given before. -/
theorem governanceLog_eq_iff (p : LifecyclePlatform) {run : GovernedRun}
    (h : Runs (GovernedRun.call p) GovernedRun.InTime {} run) :
    run.chronicle.Perm run.state.acts ∧ run.state.governanceLog.Perm run.state.acts ∧
      (run.state.governanceLog = run.chronicle ↔
        ∀ made ∈ run.calls, made.1.InTurn made.2) := by
  have htold : run.Told := by
    refine h.invariant GovernedRun.Told ?_ fun _ _ _ htold htime hcall => htold.call htime hcall
    exact ⟨LifecycleState.kept_empty, fun _ => rfl, .nil, iff_of_true .nil (by simp),
      fun _ => rfl⟩
  refine ⟨htold.perm, sortBy_perm _ _, ?_⟩
  rw [← htold.turns]
  refine sortBy_eq_iff ?_ htold.inTime htold.same
  simp only [collectedActs, List.pairwise_append, List.pairwise_map, List.mem_append, List.mem_map]
  refine ⟨List.pairwise_of_forall fun _ _ => by simp, ⟨List.pairwise_of_forall fun _ _ => by simp,
    List.pairwise_of_forall fun _ _ => by simp, ?_⟩, ?_⟩
  · rintro _ ⟨a, -, rfl⟩ _ ⟨b, -, rfl⟩
    simp
  · rintro _ ⟨a, -, rfl⟩ _ -
    simp

/-! A version is deployed as soon as it is approved. -/

instance GovernedRun.decidableInTime (run : GovernedRun) (c : LifecycleCall) :
    Decidable (run.InTime c) :=
  inferInstanceAs (Decidable (∀ instant ∈ c.instant?, _))

def GovernedRun.callInTime (run : GovernedRun) (c : LifecycleCall) :
    Except LifecycleRefusal GovernedRun :=
  if run.InTime c then run.call plainPlatform c else .error (.input "out of time")

def approvedCalls : List LifecycleCall :=
  [.registerStrategy "ma" {} 1 none none Dict.empty, .recordEvidence (maEvidence false),
    .promote operator "ma" 1 sharpePolicy (maEvidence false).evidenceId 2,
    .approve operator "ma" 1 "paper" 3 ""]

def approvedDeployment : List LifecycleCall :=
  approvedCalls ++ [.deploy operator "ma" 1 "paper" 3 "" ""]

theorem governanceLog_approved :
    ∃ run, Runs (GovernedRun.call plainPlatform) GovernedRun.InTime {} run ∧
      run.chronicle.length = 2 ∧ (run.state.governanceLog = run.chronicle ↔
        ∀ made ∈ run.calls, made.1.InTurn made.2) := by
  have hrun := ok_getD (x := approvedCalls.foldlM GovernedRun.callInTime {}) (by decide +kernel) {}
  have htimed : Runs (GovernedRun.call plainPlatform) GovernedRun.InTime {} _ :=
    .of_guarded (.of_foldlM hrun fun _ _ _ => trivial)
  exact ⟨_, htimed, by decide +kernel, (governanceLog_eq_iff plainPlatform htimed).2.2⟩

/-- The log has the stage change first, the deployment second and the approval last. -/
theorem governanceLog_out_of_order :
    ∃ run, Runs (GovernedRun.call plainPlatform) GovernedRun.InTime {} run ∧
      run.state.governanceLog ≠ run.chronicle := by
  have hrun := ok_getD (x := approvedDeployment.foldlM GovernedRun.callInTime {})
    (by decide +kernel) {}
  exact ⟨_, .of_guarded (.of_foldlM hrun fun _ _ _ => trivial), by decide +kernel⟩

end AlphaLab
