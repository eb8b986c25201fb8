/-
  A cap on volatility, met by raising risk aversion.

  `cap` solves at the starting aversion; where the solution breaches the cap it doubles the aversion
  until one meets it (`widen`) and halves the bracket, geometrically, from there (`narrow`).

  * `Bracket.Sound`: the lower end breaches the cap, the upper end meets it with the solution held;
  * `cap_least_aversion`: volatility does not rise with the aversion, the cap is refused iff every
    portfolio breaches it, and what is returned is the best portfolio no more volatile than itself,
    at the starting aversion or close to the least that meets the cap.
-/
import AlphaLab.Optimizer.Outcomes
import Mathlib.Algebra.Order.Star.Real
import Mathlib.Analysis.Real.Sqrt

namespace AlphaLab

open QuadraticForms Tradeoffs

attribute [local instance] Numerals.two

variable {n : ℕ} {K : Type}

/-! ## The search -/

section
variable [Field K] [LinearOrder K] (N : Arithmetic K) (p : ConstructionProblem n K)

/-- `sqrt(w' C w)`. -/
def portfolioVolatility (w : Fin n → K) : K := N.sqrt (max 0 (form p.covariance w))

structure Bracket (n : ℕ) (K : Type) where
  low : K
  high : K
  best : Outcome n K
  held : Fin n → K
  iterations : ℕ

def MeetsCap (cap : K) (w : Fin n → K) : Prop :=
  portfolioVolatility N p w ≤ cap + p.settings.feasibilityTolerance

instance (cap : K) (w : Fin n → K) : Decidable (MeetsCap N p cap w) :=
  inferInstanceAs (Decidable (_ ≤ _))

def capLabel (cap : K) : String := "volatility <= " ++ N.repr cap

variable (cap : K) (solveAt : K → ℕ → Outcome n K)

/-- Double the aversion until its solution meets the cap; `low` is the last that breached it. -/
def widen : ℕ → K → K → ℕ → Except (Outcome n K) (Bracket n K)
  | 0, _, _, iterations => .error (.outOfSteps iterations)
  | fuel + 1, low, high, iterations =>
    let trial := solveAt (high * 2) iterations
    match trial.solved with
    | none => .error trial
    | some held =>
      if MeetsCap N p cap held then .ok ⟨low, high * 2, trial, held, trial.iterations⟩
      else widen fuel (high * 2) (high * 2) trial.iterations

/-- Close enough to the cap, or the bracket narrow enough. -/
def Bracket.Settled (b : Bracket n K) : Prop :=
  cap * (1 - p.settings.convergenceTolerance) ≤ portfolioVolatility N p b.held ∨
    b.high / b.low - 1 ≤ p.settings.convergenceTolerance

instance (b : Bracket n K) : Decidable (b.Settled N p cap) :=
  inferInstanceAs (Decidable (_ ∨ _))

def Bracket.outcome (b : Bracket n K) : Outcome n K where
  status := .optimal
  weights := some b.held
  iterations := b.iterations
  binding := b.best.binding ++ [capLabel N cap]
  conflict := []
  stationarity := b.best.stationarity
  effectiveRiskAversion := some b.high
  worstCaseReturn := b.best.worstCaseReturn

/-- Solve at geometric midpoints until the bracket is settled. -/
def narrow : ℕ → Bracket n K → Outcome n K
  | 0, b => .outOfSteps b.iterations
  | fuel + 1, b =>
    if b.Settled N p cap then b.outcome N cap
    else
      let middle := N.sqrt (b.low * b.high)
      let trial := solveAt middle b.iterations
      match trial.solved with
      | none => trial
      | some held =>
        if MeetsCap N p cap held then narrow fuel ⟨b.low, middle, trial, held, trial.iterations⟩
        else narrow fuel ⟨middle, b.high, b.best, b.held, trial.iterations⟩

/-- Enforce a volatility cap on a mean-variance-type objective by raising risk aversion. -/
def capped (solve : Solver n K) (compiled : Compiled n K) (aversion : K) : Outcome n K :=
  let first := solveAt aversion 0
  match first.solved with
  | none => first
  | some weights =>
    if MeetsCap N p cap weights then first
    else
      let floor := qp solve p compiled 1 0 first.iterations
      match floor.solved with
      | none => floor
      | some lowest =>
        if MeetsCap N p cap lowest then
          match widen N p cap solveAt p.settings.maxIterations aversion aversion floor.iterations with
          | .error outcome => outcome
          | .ok bracket => narrow N p cap solveAt p.settings.maxIterations bracket
        else
          { floor with
            status := .infeasible, weights := none, binding := []
            conflict := capLabel N cap :: floor.binding
            effectiveRiskAversion := none, worstCaseReturn := none }

end

/-- Real square roots, with some way to write a number. -/
noncomputable def exactly (repr : ℝ → String) : Arithmetic ℝ := ⟨Real.sqrt, repr⟩

variable {repr : ℝ → String} {p : ConstructionProblem n ℝ} {s : ℝ}

theorem volatility_le_iff (hC : p.covariance.PosDef) {v w : Fin n → ℝ} :
    portfolioVolatility (exactly repr) p v ≤ portfolioVolatility (exactly repr) p w ↔
      form p.covariance v ≤ form p.covariance w := by
  simp only [portfolioVolatility, exactly, max_eq_right (form_nonneg hC _)]
  exact Real.sqrt_le_sqrt_iff (form_nonneg hC w)

section
variable {S : Set (Fin n → ℝ)} {f : (Fin n → ℝ) → ℝ} {solveAt : ℝ → ℕ → Outcome n ℝ} {a : ℝ}

def Breaches (repr : ℝ → String) (p : ConstructionProblem n ℝ) (s : ℝ)
    (solveAt : ℝ → ℕ → Outcome n ℝ) (b : ℝ) : Prop :=
  ∃ k w, (solveAt b k).solved = some w ∧ ¬MeetsCap (exactly repr) p s w

/-- The lower end is at least `a` and breaches the cap; the upper end's solution is held and meets
it. -/
structure Bracket.Sound (repr : ℝ → String) (p : ConstructionProblem n ℝ) (s : ℝ)
    (solveAt : ℝ → ℕ → Outcome n ℝ) (a : ℝ) (b : Bracket n ℝ) : Prop where
  above : a ≤ b.low
  ordered : b.low < b.high
  breaches : Breaches repr p s solveAt b.low
  holds : ∃ k, (solveAt b.high k).solved = some b.held
  meets : MeetsCap (exactly repr) p s b.held

/-- The solution at `b` meets the cap, and it is settled that no much lower aversion does. -/
structure CappedAt (repr : ℝ → String) (p : ConstructionProblem n ℝ) (s : ℝ)
    (solveAt : ℝ → ℕ → Outcome n ℝ) (a b : ℝ) (w : Fin n → ℝ) : Prop where
  above : a ≤ b
  solves : ∃ k, (solveAt b k).solved = some w
  meets : MeetsCap (exactly repr) p s w
  settled : b = a ∨
    s * (1 - p.settings.convergenceTolerance) ≤ portfolioVolatility (exactly repr) p w ∨
    ∃ c, a ≤ c ∧ c < b ∧ b ≤ c * (1 + p.settings.convergenceTolerance) ∧
      Breaches repr p s solveAt c

theorem widen_sound
    (hsolve : ∀ b > 0, ∀ k, (solveAt b k).LeastOver S (weighed (form p.covariance) f b))
    (hS : S.Nonempty) (ha : 0 < a) (fuel : ℕ) : ∀ {b : ℝ} {k : ℕ}, a ≤ b →
    Breaches repr p s solveAt b →
    match widen (exactly repr) p s solveAt fuel b b k with
    | .error o => o.status = .iterationLimit
    | .ok bracket => bracket.Sound repr p s solveAt a := by
  induction fuel with
  | zero =>
    intro b k hb hbreaches
    rfl
  | succ fuel ih =>
    intro b k hb hbreaches
    have hdouble : 0 < b * 2 := by linarith
    simp only [widen]
    cases htrial : (solveAt (b * 2) k).solved with
    | none =>
      have hempty := ((hsolve _ hdouble k).of_unsolved htrial).2
      exact absurd hempty hS.ne_empty
    | some held =>
      by_cases hmeets : MeetsCap (exactly repr) p s held
      · simp only [if_pos hmeets]
        exact ⟨hb, by simp only; linarith, hbreaches, ⟨k, htrial⟩, hmeets⟩
      · simp only [if_neg hmeets]
        exact ih (by linarith) ⟨k, held, htrial, hmeets⟩

theorem narrow_sound
    (hsolve : ∀ b > 0, ∀ k, (solveAt b k).LeastOver S (weighed (form p.covariance) f b))
    (hS : S.Nonempty) (ha : 0 < a) (fuel : ℕ) : ∀ {b : Bracket n ℝ}, b.Sound repr p s solveAt a →
    (narrow (exactly repr) p s solveAt fuel b).status = .iterationLimit ∨
      (narrow (exactly repr) p s solveAt fuel b).status = .optimal ∧
        ∃ c w, (narrow (exactly repr) p s solveAt fuel b).weights = some w ∧
          CappedAt repr p s solveAt a c w := by
  induction fuel with
  | zero =>
    intro b hb
    exact .inl rfl
  | succ fuel ih =>
    intro b hb
    have hlow : 0 < b.low := ha.trans_le hb.above
    have hhigh : 0 < b.high := hlow.trans hb.ordered
    rw [narrow]
    by_cases hsettled : b.Settled (exactly repr) p s
    · rw [if_pos hsettled]
      refine .inr ⟨rfl, b.high, b.held, rfl, hb.above.trans hb.ordered.le, hb.holds, hb.meets, ?_⟩
      rcases hsettled with hclose | hnarrow
      · exact .inr (.inl hclose)
      · refine .inr (.inr ⟨b.low, hb.above, hb.ordered, ?_, hb.breaches⟩)
        rw [← div_le_iff₀' hlow]
        linarith
    · rw [if_neg hsettled]
      -- the geometric midpoint lies strictly between the two ends
      have hlow_lt : b.low < (exactly repr).sqrt (b.low * b.high) :=
        Real.lt_sqrt_of_sq_lt (by nlinarith [hb.ordered])
      have hlt_high : (exactly repr).sqrt (b.low * b.high) < b.high :=
        (Real.sqrt_lt' hhigh).mpr (by nlinarith [hb.ordered])
      cases htrial : (solveAt ((exactly repr).sqrt (b.low * b.high)) b.iterations).solved with
      | none =>
        have hempty := ((hsolve _ (hlow.trans hlow_lt) _).of_unsolved htrial).2
        exact absurd hempty hS.ne_empty
      | some held =>
        by_cases hmeets : MeetsCap (exactly repr) p s held
        · simp only [htrial, if_pos hmeets]
          exact ih ⟨hb.above, hlow_lt, hb.breaches, ⟨_, htrial⟩, hmeets⟩
        · simp only [htrial, if_neg hmeets]
          exact ih ⟨hb.above.trans hlow_lt.le, hlt_high, ⟨_, held, htrial, hmeets⟩, hb.holds,
            hb.meets⟩

variable {solve : Solver n ℝ} {compiled : Compiled n ℝ}

theorem meetsCap_lowest (hC : p.covariance.PosDef) {k : ℕ} {w v : Fin n → ℝ}
    (hminimum : (solve (p.program compiled 1 0) k).Answers (p.program compiled 1 0))
    (hw : (qp solve p compiled 1 0 k).solved = some w) (hv : v ∈ compiled.portfolios)
    (hmeets : MeetsCap (exactly repr) p s v) : MeetsCap (exactly repr) p s w := by
  obtain ⟨-, -, hleast⟩ := (qp_leastOver hminimum).of_solved hw
  have hform := isMinOn_iff.mp hleast v hv
  simp only [weighed, Pi.zero_apply, zero_mul, Finset.sum_const_zero, add_zero] at hform
  exact ((volatility_le_iff hC).mpr (by linarith)).trans hmeets

theorem capped_sound (repr : ℝ → String) (hC : p.covariance.PosDef) (ha : 0 < a)
    (hsolve : ∀ b > 0, ∀ k,
      (solveAt b k).LeastOver compiled.portfolios (weighed (form p.covariance) f b))
    (hminimum : ∀ k, (solve (p.program compiled 1 0) k).Answers (p.program compiled 1 0)) :
    let o := capped (exactly repr) p s solveAt solve compiled a
    o.status = .iterationLimit ∨
      (o.status = .infeasible ∧ ∀ w ∈ compiled.portfolios, ¬MeetsCap (exactly repr) p s w) ∨
      (o.status = .optimal ∧ ∃ b w, o.weights = some w ∧ CappedAt repr p s solveAt a b w) := by
  simp only [capped]
  cases hfirst : (solveAt a 0).solved with
  | none =>
    obtain ⟨hstatus, hempty⟩ := (hsolve a ha 0).of_unsolved hfirst
    refine .inr (.inl ⟨hstatus, ?_⟩)
    rw [hempty]
    exact fun w hw => absurd hw (Set.notMem_empty w)
  | some weights =>
    obtain ⟨hstatus, hmem, -⟩ := (hsolve a ha 0).of_solved hfirst
    by_cases hmeets : MeetsCap (exactly repr) p s weights
    · simp only [if_pos hmeets]
      exact .inr (.inr ⟨hstatus, a, weights, (hsolve a ha 0).solved_iff.mp hfirst, le_rfl,
        ⟨0, hfirst⟩, hmeets, .inl rfl⟩)
    simp only [if_neg hmeets]
    have hbreaches : Breaches repr p s solveAt a := ⟨0, weights, hfirst, hmeets⟩
    cases hfloor : (qp solve p compiled 1 0 (solveAt a 0).iterations).solved with
    | none =>
      have hempty := ((qp_leastOver (hminimum _)).of_unsolved hfloor).2
      exact absurd (hempty ▸ hmem) (Set.notMem_empty weights)
    | some lowest =>
      by_cases hlowest : MeetsCap (exactly repr) p s lowest
      · simp only [if_pos hlowest]
        have hwiden := widen_sound hsolve ⟨weights, hmem⟩ ha p.settings.maxIterations le_rfl
          hbreaches (k := (qp solve p compiled 1 0 (solveAt a 0).iterations).iterations)
        cases hbracket : widen (exactly repr) p s solveAt p.settings.maxIterations a a
            (qp solve p compiled 1 0 (solveAt a 0).iterations).iterations with
        | error o =>
          rw [hbracket] at hwiden
          exact .inl hwiden
        | ok bracket =>
          rw [hbracket] at hwiden
          rcases narrow_sound hsolve ⟨weights, hmem⟩ ha p.settings.maxIterations hwiden with
            hlimit | ⟨hoptimal, c, w, hw, hcapped⟩
          · exact .inl hlimit
          · exact .inr (.inr ⟨hoptimal, c, w, hw, hcapped⟩)
      · simp only [if_neg hlowest]
        exact .inr (.inl ⟨trivial, fun v hv hv' =>
          hlowest (meetsCap_lowest hC (hminimum _) hfloor hv hv')⟩)

end

/-- Volatility does not rise with risk aversion. -/
theorem volatility_antitone {S : Set (Fin n → ℝ)} {f : (Fin n → ℝ) → ℝ} {o o' : Outcome n ℝ}
    {a b : ℝ} {w v : Fin n → ℝ} (hC : p.covariance.PosDef) (hS : Convex ℝ S)
    (hf : ConvexOn ℝ Set.univ f) (ha : 0 < a) (hab : a ≤ b)
    (ho : o.LeastOver S (weighed (form p.covariance) f a)) (hw : o.weights = some w)
    (ho' : o'.LeastOver S (weighed (form p.covariance) f b)) (hv : o'.weights = some v) :
    portfolioVolatility (exactly repr) p v ≤ portfolioVolatility (exactly repr) p w := by
  obtain ⟨-, hmem, hleast⟩ := ho.of_solved (ho.solved_iff.mpr hw)
  obtain ⟨-, hmem', hleast'⟩ := ho'.of_solved (ho'.solved_iff.mpr hv)
  refine (volatility_le_iff hC).mpr ?_
  rcases hab.eq_or_lt with rfl | hlt
  · have hstrict : StrictConvexOn ℝ Set.univ (weighed (form p.covariance) f a) := by
      have hscaled : StrictConvexOn ℝ Set.univ fun w => a / 2 * form p.covariance w := by
        have h := strictConvexOn_form (hC.smul (by linarith : (0 : ℝ) < a / 2))
        rwa [show form ((a / 2) • p.covariance) = fun w => a / 2 * form p.covariance w from
          funext (form_scale _)] at h
      exact hscaled.add_convexOn hf
    have hsame := ho.weights_eq ho' hS hstrict
    rw [hw, hv] at hsame
    rw [Option.some.inj hsame]
  · exact spread_le_of_weight_lt hmem hleast hmem' hleast' hlt

/-- **A volatility cap is met at the least risk aversion.** -/
theorem cap_least_aversion (repr : ℝ → String) (p : ConstructionProblem n ℝ)
    (compiled : Compiled n ℝ) (solve : Solver n ℝ) (solveAt : ℝ → ℕ → Outcome n ℝ)
    (f : (Fin n → ℝ) → ℝ) (s a : ℝ) (ha : 0 < a) (hC : p.covariance.PosDef)
    (hf : ConvexOn ℝ Set.univ f)
    (hsolve : ∀ b > 0, ∀ k,
      (solveAt b k).LeastOver compiled.portfolios (weighed (form p.covariance) f b))
    (hminimum : ∀ k, (solve (p.program compiled 1 0) k).Answers (p.program compiled 1 0)) :
    let volatility := portfolioVolatility (exactly repr) p
    let limit := s + p.settings.feasibilityTolerance
    let o := capped (exactly repr) p s solveAt solve compiled a
    (∀ b c j k w v, 0 < b → b ≤ c → (solveAt b j).weights = some w →
      (solveAt c k).weights = some v → volatility v ≤ volatility w) ∧
    (o.status ≠ .iterationLimit →
      (o.status = .infeasible ↔ ∀ w ∈ compiled.portfolios, limit < volatility w) ∧
      (o.status ≠ .infeasible → o.status = .optimal ∧ ∃ w, o.weights = some w ∧
        w ∈ compiled.portfolios ∧ volatility w ≤ limit ∧
        IsMinOn (weighed (form p.covariance) f a)
          {v ∈ compiled.portfolios | volatility v ≤ volatility w} w ∧
        ∃ b, (∃ k, (solveAt b k).weights = some w) ∧
          (b = a ∨ s * (1 - p.settings.convergenceTolerance) ≤ volatility w ∨
            ∃ c j v, 0 < c ∧ c < b ∧ b ≤ c * (1 + p.settings.convergenceTolerance) ∧
              (solveAt c j).weights = some v ∧ limit < volatility v))) := by
  intro volatility limit o
  refine ⟨?_, ?_⟩
  · intro b c j k w v hb hbc hw hv
    exact volatility_antitone hC (convex_feasible _ _) hf hb hbc (hsolve b hb j) hw
      (hsolve c (hb.trans_le hbc) k) hv
  intro hbudget
  rcases capped_sound (s := s) repr hC ha hsolve hminimum with
    hlimit | ⟨hstatus, hnone⟩ | ⟨hstatus, b, w, hw, hcapped⟩
  · exact absurd hlimit hbudget
  · refine ⟨⟨fun _ w hw => not_le.mp (hnone w hw), fun _ => hstatus⟩, ?_⟩
    exact fun hne => absurd hstatus hne
  obtain ⟨k, hsolved⟩ := hcapped.solves
  have hb : 0 < b := ha.trans_le hcapped.above
  obtain ⟨-, hmem, hleast⟩ := (hsolve b hb k).of_solved hsolved
  refine ⟨⟨fun h => ?_, fun h => ?_⟩, fun _ => ⟨hstatus, w, hw, hmem, hcapped.meets, ?_, ?_⟩⟩
  · exact absurd (hstatus.symm.trans h) (by decide)
  · exact absurd hcapped.meets (not_le.mpr (h w hmem))
  · have hwithin := isMinOn_within hleast hcapped.above
    simpa only [volatility, volatility_le_iff hC] using hwithin
  · refine ⟨b, ⟨k, (hsolve b hb k).solved_iff.mp hsolved⟩, ?_⟩
    rcases hcapped.settled with hstart | hclose | ⟨c, hac, hcb, hnear, j, v, hv, hbreaches⟩
    · exact .inl hstart
    · exact .inr (.inl hclose)
    · have hc : 0 < c := ha.trans_le hac
      exact .inr (.inr ⟨c, j, v, hc, hcb, hnear, (hsolve c hc j).solved_iff.mp hv,
        not_le.mp hbreaches⟩)

/-! ## One asset -/

noncomputable def quarterHeld : Compiled 1 ℝ :=
  ⟨[⟨"weight[A] >= 0.25", [(0, 1)], 1 / 4, false⟩], [], []⟩

theorem two_labels : Function.Injective !["A", "B"] := by decide

noncomputable def oneAsset : ConstructionProblem 1 ℝ where
  universe_ _ := "A"
  distinct _ _ _ := Subsingleton.elim _ _
  covariance := 1
  constraints := ⟨⟨none, none⟩, ⟨some (1 / 4), none, .empty⟩, none, none, [], [], none, none,
    some (1 / 2)⟩
  settings := ⟨1 / 100, 1 / 100, 10⟩

/-- The most return for its risk, `1 / a` of the asset where that is at least a quarter. -/
noncomputable def asMuch (a : ℝ) (k : ℕ) : Outcome 1 ℝ :=
  ⟨.optimal, some fun _ => max (1 / a) (1 / 4), k, [], [], some 0, none, none⟩

noncomputable def aQuarter : Solver 1 ℝ := fun _ _ =>
  ⟨.optimal, some fun _ => 1 / 4, none, 1, [], .ofList [("weight[A] >= 0.25", 1 / 4)], [], 0, 0, 1⟩

theorem form_oneAsset (w : Fin 1 → ℝ) : form oneAsset.covariance w = w 0 ^ 2 := by
  simp [form, oneAsset, dotProduct, sq]

theorem mem_quarterHeld (w : Fin 1 → ℝ) : w ∈ quarterHeld.portfolios ↔ 1 / 4 ≤ w 0 := by
  simp [quarterHeld, Compiled.portfolios, feasible, LinearConstraint.Holds, LinearConstraint.slack,
    dot]

theorem asMuch_least {a : ℝ} (ha : 0 < a) (k : ℕ) :
    (asMuch a k).LeastOver quarterHeld.portfolios
      (weighed (form oneAsset.covariance) (fun w => -w 0) a) := by
  refine .optimal _ rfl rfl ((mem_quarterHeld _).mpr (le_max_right _ _)) (isMinOn_iff.mpr ?_)
  intro v hv
  rw [mem_quarterHeld] at hv
  simp only [weighed, form_oneAsset]
  rcases le_total (1 / a) (1 / 4) with h | h
  · -- beyond the unconstrained best the objective rises
    rw [max_eq_right h]
    have ha4 : 4 ≤ a := by
      rw [div_le_div_iff₀ ha (by norm_num)] at h
      linarith
    nlinarith [mul_nonneg (sub_nonneg.mpr hv) (sub_nonneg.mpr hv),
      mul_nonneg (sub_nonneg.mpr ha4) (mul_nonneg (sub_nonneg.mpr hv) (by linarith : 0 ≤ v 0 + 1 / 4))]
  · rw [max_eq_left h]
    have hsquare : a / 2 * v 0 ^ 2 + -v 0 - (a / 2 * (1 / a) ^ 2 + -(1 / a)) =
        a / 2 * (v 0 - 1 / a) ^ 2 := by
      field_simp
      ring
    nlinarith [mul_nonneg ha.le (sq_nonneg (v 0 - 1 / a))]

theorem aQuarter_answers (k : ℕ) :
    (aQuarter (oneAsset.program quarterHeld 1 0) k).Answers (oneAsset.program quarterHeld 1 0) := by
  refine .optimal (fun _ => 1 / 4) ⟨fun _ => 1 / 4, fun _ => 0⟩ rfl rfl ⟨?_, ?_, ?_, ?_, ?_, ?_⟩ ?_
  · exact (mem_quarterHeld _).mpr le_rfl
  · intro c _ _
    norm_num
  · simp [ConstructionProblem.program, quarterHeld, LinearConstraint.slack, dot]
  · simp [ConstructionProblem.program, quarterHeld]
  · simp [ConstructionProblem.program, quarterHeld]
  · intro y
    simp only [QuadraticProgram.lagrangian, QuadraticProgram.objective, ConstructionProblem.program,
      value, form_scale, form_oneAsset, quarterHeld, LinearConstraint.slack, dot]
    simp
    nlinarith [sq_nonneg (y 0 - 1 / 4)]
  · intro label
    by_cases h : "weight[A] >= 0.25" = label
    · subst h
      simp [aQuarter, ConstructionProblem.program, quarterHeld, QuadraticProgram.reported, Dict.ofList]
    · simp [aQuarter, ConstructionProblem.program, quarterHeld, QuadraticProgram.reported, Dict.ofList,
        Dict.get?_set_of_ne, h, Ne.symm h]

theorem volatility_oneAsset (repr : ℝ → String) {c : ℝ} (hc : 0 ≤ c) :
    portfolioVolatility (exactly repr) oneAsset (fun _ => c) = c := by
  simp only [portfolioVolatility, exactly, form_oneAsset, max_eq_right (sq_nonneg c)]
  exact Real.sqrt_sq hc

theorem half_meets_cap (repr : ℝ → String) :
    (capped (exactly repr) oneAsset (1 / 2) asMuch aQuarter quarterHeld 1).status = .optimal := by
  have hsolved (b : ℝ) (k : ℕ) : (asMuch b k).solved = some fun _ => max (1 / b) (1 / 4) := rfl
  have hmeets {c : ℝ} (hc : 0 ≤ c) : MeetsCap (exactly repr) oneAsset (1 / 2) (fun _ => c) ↔
      c ≤ 1 / 2 + 1 / 100 := by
    rw [MeetsCap, volatility_oneAsset repr hc]
    rfl
  have hfirst : ¬MeetsCap (exactly repr) oneAsset (1 / 2) (fun _ => max (1 / 1) (1 / 4)) := by
    rw [hmeets (by norm_num)]
    norm_num
  have hfloor : MeetsCap (exactly repr) oneAsset (1 / 2) (fun _ => 1 / 4) := by
    rw [hmeets (by norm_num)]
    norm_num
  have hdoubled : MeetsCap (exactly repr) oneAsset (1 / 2) (fun _ => max (1 / (1 * 2)) (1 / 4)) := by
    rw [hmeets (by norm_num)]
    norm_num
  have hfloors : (qp aQuarter oneAsset quarterHeld 1 0 (asMuch 1 0).iterations).solved =
      some fun _ => 1 / 4 := rfl
  have hwiden : widen (exactly repr) oneAsset (1 / 2) asMuch oneAsset.settings.maxIterations 1 1
      (qp aQuarter oneAsset quarterHeld 1 0 (asMuch 1 0).iterations).iterations =
      .ok ⟨1, 1 * 2, asMuch (1 * 2) 1, fun _ => max (1 / (1 * 2)) (1 / 4), 1⟩ :=
    if_pos hdoubled
  have hsettled : Bracket.Settled (exactly repr) oneAsset (1 / 2)
      ⟨1, 1 * 2, asMuch (1 * 2) 1, fun _ => max (1 / (1 * 2)) (1 / 4), 1⟩ := by
    refine .inl ?_
    rw [volatility_oneAsset repr (by norm_num)]
    norm_num [oneAsset]
  have hnarrow : narrow (exactly repr) oneAsset (1 / 2) asMuch oneAsset.settings.maxIterations
      ⟨1, 1 * 2, asMuch (1 * 2) 1, fun _ => max (1 / (1 * 2)) (1 / 4), 1⟩ =
      Bracket.outcome (exactly repr) (1 / 2)
        ⟨1, 1 * 2, asMuch (1 * 2) 1, fun _ => max (1 / (1 * 2)) (1 / 4), 1⟩ := if_pos hsettled
  simp only [capped, hsolved, if_neg hfirst, hfloors, if_pos hfloor, hwiden, hnarrow]
  rfl

/-- The portfolio returned there, by the theorem. -/
theorem half_is_least : ∃ w,
    (capped (exactly fun _ => "") oneAsset (1 / 2) asMuch aQuarter quarterHeld 1).weights = some w ∧
      1 / 4 ≤ w 0 ∧ portfolioVolatility (exactly fun _ => "") oneAsset w ≤ 1 / 2 + 1 / 100 := by
  have hstatus := half_meets_cap fun _ => ""
  have hC : oneAsset.covariance.PosDef := Matrix.PosDef.one
  have hf : ConvexOn ℝ Set.univ fun w : Fin 1 → ℝ => -w 0 :=
    ⟨convex_univ, fun x _ y _ s t _ _ _ => by simp⟩
  obtain ⟨-, hcapped⟩ := cap_least_aversion (fun _ => "") oneAsset quarterHeld aQuarter asMuch
    (fun w => -w 0) (1 / 2) 1 one_pos hC hf (fun b hb k => asMuch_least hb k) aQuarter_answers
  obtain ⟨-, hheld⟩ := hcapped (by rw [hstatus]; decide)
  obtain ⟨-, w, hw, hmem, hlimit, -⟩ := hheld (by rw [hstatus]; decide)
  exact ⟨w, hw, (mem_quarterHeld w).mp hmem, hlimit⟩

end AlphaLab
